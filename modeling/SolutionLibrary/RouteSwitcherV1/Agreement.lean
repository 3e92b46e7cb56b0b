import SolutionLibrary.Library.Invariant
import SolutionLibrary.RouteSwitcherV1.Attachment

namespace solution_library.route_switcher_v1

/-- An invocation of the switcher for one message takes two PATCH operations:
one clears the route table of the subnet, the next one sets it. -/
inductive Phase where
  | received
  | cleared
  deriving DecidableEq

/-- The deployed system. A running checker has messages to send and then a
configuration to store. `sent` and `set` record the messages in the order in
which they were sent and in which their second operation took effect. -/
structure State where
  config : Config
  checker : Option (List Message × Config)
  queue : List Message
  switchers : List (Message × Phase)
  subnets : String → String
  sent : List Message
  set : List Message

inductive Act where
  | start (fullStatus : List TargetState)
  | send_message
  | put_config
  | deliver (message : Message)
  | clear (message : Message)
  | set (message : Message) (deleted : Bool)

/-- The steps of the system. The queue delivers any message that has not been
deleted, again and to several invocations at once. A message is deleted after
an invocation has handled it, unless the deletion is lost. -/
def step (s : State) (act : Act) : Option State :=
  match act with
  | .start fullStatus =>
    if s.checker = none then
      match check_router_statuses s.config (some fullStatus) with
      | (messages, .ok config) => some { s with checker := some (messages, config) }
      | (_, .error _) => none
    else none
  | .send_message =>
    match s.checker with
    | some (message :: messages, config) => some { s with
        checker := some (messages, config), queue := message :: s.queue, sent := s.sent ++ [message] }
    | _ => none
  | .put_config =>
    match s.checker with
    | some ([], config) => some { s with checker := none, config := dump config }
    | _ => none
  | .deliver message =>
    if message ∈ s.queue then some { s with switchers := (message, .received) :: s.switchers } else none
  | .clear message =>
    if (message, .received) ∈ s.switchers then some { s with
      switchers := (message, .cleared) :: s.switchers.erase (message, .received)
      subnets := Function.update s.subnets message.subnet_id "" }
    else none
  | .set message deleted =>
    if (message, .cleared) ∈ s.switchers then some { s with
      switchers := s.switchers.erase (message, .cleared)
      subnets := Function.update s.subnets message.subnet_id message.route_table_id
      queue := if deleted then s.queue.erase message else s.queue
      set := s.set ++ [message] }
    else none

def run (s : State) (acts : List Act) : Option State :=
  acts.foldlM step s

/-- Nothing is under way: the checker has completed, the queue is empty and
every delivery has been handled. -/
structure State.Quiescent (s : State) : Prop where
  checker : s.checker = none
  queue : s.queue = []
  switchers : s.switchers = []

structure State.Initial (s : State) : Prop extends s.Quiescent where
  sent : s.sent = []
  set : s.set = []

/-- Every subnet is attached to `route_table[active]` of its destination. -/
def State.Agrees (s : State) : Prop :=
  ∀ subnet_id, s.config.Attaches subnet_id (s.subnets subnet_id)

/-- From agreement, every run that comes to rest ends in agreement. -/
def AlwaysAgrees : Prop :=
  ∀ start s acts, start.Initial → start.Agrees → (∀ subnet_id, start.config.Sole subnet_id) →
    run start acts = some s → s.Quiescent → s.Agrees

/-- The configuration that will be stored, and what is still to be sent. -/
def State.pending (s : State) : List Message × Config :=
  s.checker.getD ([], s.config)

/-- The stored configuration follows the messages sent, and the subnet the
messages set, except between the two operations of an invocation. -/
structure State.Follows (s : State) (subnet_id table : String) : Prop where
  sole : s.pending.2.Sole subnet_id
  attaches : s.pending.2.Attaches subnet_id (told s.pending.1 subnet_id (told s.sent subnet_id table))
  subnets : s.subnets subnet_id = told s.set subnet_id table ∨
    ∃ message, (message, .cleared) ∈ s.switchers ∧ message.subnet_id = subnet_id

section follows

variable {s after : State} {subnet_id table : String}

theorem State.Follows.start (h : s.Follows subnet_id table) {fullStatus : List TargetState}
    (hstep : step s (.start fullStatus) = some after) : after.Follows subnet_id table := by
  rw [step, Option.ite_none_right_eq_some] at hstep
  obtain ⟨hidle, hstep⟩ := hstep
  obtain ⟨hsole, hattaches, hsubnets⟩ := h
  simp only [State.pending, hidle, Option.getD_none] at hsole hattaches
  split at hstep
  · next messages config hrun =>
    cases hstep
    obtain ⟨_, hreport, rfl, rfl⟩ := check_router_statuses_ok hrun
    cases hreport
    exact ⟨hsole.checked fullStatus, hattaches.checked hsole fullStatus, hsubnets⟩
  · cases hstep

theorem State.Follows.send_message (h : s.Follows subnet_id table) (hstep : step s .send_message = some after) :
    after.Follows subnet_id table := by
  rw [step] at hstep
  obtain ⟨hsole, hattaches, hsubnets⟩ := h
  split at hstep
  · next message messages config hchecker =>
    cases hstep
    simp only [State.pending, hchecker, Option.getD_some] at hsole hattaches
    refine ⟨hsole, ?_, hsubnets⟩
    rw [told_cons] at hattaches
    change config.Attaches subnet_id (told messages subnet_id (told (s.sent ++ [message]) subnet_id table))
    rwa [told_append]
  · cases hstep

theorem State.Follows.put_config (h : s.Follows subnet_id table) (hstep : step s .put_config = some after) :
    after.Follows subnet_id table := by
  rw [step] at hstep
  obtain ⟨hsole, hattaches, hsubnets⟩ := h
  split at hstep
  · next config hchecker =>
    cases hstep
    simp only [State.pending, hchecker, Option.getD_some] at hsole hattaches
    exact ⟨hsole.dump, hattaches.dump, hsubnets⟩
  · cases hstep

theorem State.Follows.deliver (h : s.Follows subnet_id table) {message : Message}
    (hstep : step s (.deliver message) = some after) : after.Follows subnet_id table := by
  rw [step, Option.ite_none_right_eq_some] at hstep
  obtain ⟨_, hstep⟩ := hstep
  cases hstep
  refine ⟨h.sole, h.attaches, h.subnets.imp_right ?_⟩
  rintro ⟨other, hother, hsubnet⟩
  exact ⟨other, List.mem_cons_of_mem _ hother, hsubnet⟩

theorem State.Follows.clear (h : s.Follows subnet_id table) {message : Message}
    (hstep : step s (.clear message) = some after) : after.Follows subnet_id table := by
  rw [step, Option.ite_none_right_eq_some] at hstep
  obtain ⟨_, hstep⟩ := hstep
  cases hstep
  refine ⟨h.sole, h.attaches, ?_⟩
  by_cases hmessage : message.subnet_id = subnet_id
  · exact Or.inr ⟨message, List.mem_cons_self, hmessage⟩
  · obtain hset | ⟨other, hother, hsubnet⟩ := h.subnets
    · exact Or.inl ((Function.update_of_ne (Ne.symm hmessage) _ _).trans hset)
    · refine Or.inr ⟨other, List.mem_cons_of_mem _ ?_, hsubnet⟩
      exact (List.mem_erase_of_ne (by simp)).mpr hother

theorem State.Follows.set (h : s.Follows subnet_id table) {message : Message} {deleted : Bool}
    (hstep : step s (.set message deleted) = some after) : after.Follows subnet_id table := by
  rw [step, Option.ite_none_right_eq_some] at hstep
  obtain ⟨_, hstep⟩ := hstep
  cases hstep
  refine ⟨h.sole, h.attaches, ?_⟩
  simp only [told_append, told_singleton]
  by_cases hmessage : message.subnet_id = subnet_id
  · rw [if_pos hmessage]
    subst hmessage
    exact Or.inl (Function.update_self ..)
  · rw [if_neg hmessage, Function.update_of_ne (Ne.symm hmessage)]
    apply h.subnets.imp_right
    rintro ⟨other, hother, hsubnet⟩
    refine ⟨other, (List.mem_erase_of_ne ?_).mpr hother, hsubnet⟩
    rintro heq
    cases heq
    exact hmessage hsubnet

theorem State.Follows.step (h : s.Follows subnet_id table) {act : Act} (hstep : step s act = some after) :
    after.Follows subnet_id table := by
  cases act with
  | start fullStatus => exact h.start hstep
  | send_message => exact h.send_message hstep
  | put_config => exact h.put_config hstep
  | deliver message => exact h.deliver hstep
  | clear message => exact h.clear hstep
  | set message deleted => exact h.set hstep

end follows

theorem State.keeps_follows (subnet_id table : String) :
    invariant.Keeps (invariant.Steps step) fun s => s.Follows subnet_id table := by
  rintro s after hfollows ⟨act, hstep⟩
  exact hfollows.step hstep

/-- When the system comes to rest, a subnet agrees with the stored configuration
exactly if the message set last for it names the table of the message sent last
for it. -/
theorem agrees_iff_last_sent_is_set {start s : State} {acts : List Act} (hstart : start.Initial)
    (hrun : run start acts = some s) (hquiet : s.Quiescent) {subnet_id : String}
    (hagrees : start.config.Attaches subnet_id (start.subnets subnet_id)) (hsole : start.config.Sole subnet_id)
    {entry : String × Destination} (hentry : entry ∈ s.config.routes_config) (hown : entry.2.Owns subnet_id) :
    s.subnets subnet_id = entry.2.table ↔
      told s.set subnet_id (start.subnets subnet_id) = told s.sent subnet_id (start.subnets subnet_id) := by
  have hfirst : start.Follows subnet_id (start.subnets subnet_id) := by
    refine ⟨?_, ?_, Or.inl ?_⟩
    · rwa [State.pending, hstart.checker]
    · rw [State.pending, hstart.checker, hstart.sent]
      exact hagrees
    · rw [hstart.set]
      rfl
  have hfollows : s.Follows subnet_id (start.subnets subnet_id) :=
    (State.keeps_follows subnet_id _).run (invariant.reflTransGen_of_foldlM hrun) hfirst
  have hattaches := hfollows.attaches
  rw [State.pending, hquiet.checker] at hattaches
  rw [hattaches entry hentry hown]
  obtain hset | ⟨message, hmessage, _⟩ := hfollows.subnets
  · rw [hset]
    rfl
  · rw [hquiet.switchers] at hmessage
    cases hmessage

def template_state : State where
  config := template_config .primary .primary
  checker := none
  queue := []
  switchers := []
  subnets := template_subnets
  sent := []
  set := []

/-- The first router fails and recovers. -/
def failover_and_back : List Act :=
  [.start (template_report .UNHEALTHY .HEALTHY), .send_message, .put_config,
    .start (template_report .HEALTHY .HEALTHY), .send_message, .put_config]

/-- The switcher handles one message. -/
def handle (route_table_id : String) : List Act :=
  let message : Message := ⟨"e9b-subnet-a", route_table_id⟩
  [.deliver message, .clear message, .set message true]

theorem template_state_initial : template_state.Initial where
  checker := rfl
  queue := rfl
  switchers := rfl
  sent := rfl
  set := rfl

theorem quiescent_iff {s : State} :
    s.Quiescent ↔ (s.checker, s.queue, s.switchers) = (none, [], []) := by
  simp only [Prod.mk.injEq]
  exact ⟨fun h => ⟨h.checker, h.queue, h.switchers⟩, fun ⟨h, h', h''⟩ => ⟨h, h', h''⟩⟩

def delivered_in_order : List Act :=
  failover_and_back ++ handle "enp-rt-b" ++ handle "enp-rt-a"

def delivered_swapped : List Act :=
  failover_and_back ++ handle "enp-rt-a" ++ handle "enp-rt-b"

theorem run_in_order : (run template_state delivered_in_order).isSome := by decide

theorem run_swapped : (run template_state delivered_swapped).isSome := by decide

/-- Handled in the order in which they were sent, the two messages leave the
subnet on its primary table. -/
theorem agrees_iff_last_sent_is_set_template :
    ∃ s, run template_state delivered_in_order = some s ∧ s.subnets "e9b-subnet-a" = "enp-rt-a" := by
  have hentry : ("192.168.1.10", ⟨.primary, ⟨"enp-rt-a", "enp-rt-b"⟩, some ["e9b-subnet-a"], some .HEALTHY⟩) ∈
      ((run template_state delivered_in_order).get run_in_order).config.routes_config := by decide
  have hagrees : template_state.config.Attaches "e9b-subnet-a" (template_state.subnets "e9b-subnet-a") := by decide
  refine ⟨_, (Option.some_get run_in_order).symm, ?_⟩
  exact (agrees_iff_last_sent_is_set template_state_initial (Option.some_get run_in_order).symm
    (quiescent_iff.mpr (by decide)) hagrees (by decide) hentry (by decide)).mpr (by decide)

/-- When the queue delivers the message of the fail-over after that of the
fail-back, the subnet stays on the secondary table. -/
theorem reordered_messages_diverge : ¬ AlwaysAgrees := by
  intro h
  have hagrees := h template_state _ delivered_swapped template_state_initial template_config_attaches
    (template_config_sole .primary .primary) (Option.some_get run_swapped).symm (quiescent_iff.mpr (by decide))
    "e9b-subnet-a"
  revert hagrees
  decide

end solution_library.route_switcher_v1
