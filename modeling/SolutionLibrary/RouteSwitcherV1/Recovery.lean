import SolutionLibrary.Library.Invariant
import SolutionLibrary.RouteSwitcherV1.Attachment

namespace solution_library.route_switcher_v1

/-- `failover` of the switcher: the route table of the subnet is cleared and then
set. -/
def switch (subnets : String → String) (message : Message) : String → String :=
  Function.update (Function.update subnets message.subnet_id "") message.subnet_id message.route_table_id

/-- The system with a queue that delivers every message once and in order.
`unsettled` are the messages that failed invocations have sent since the last
one that completed. -/
structure Fifo where
  config : Config
  queue : List Message
  subnets : String → String
  unsettled : List Message
  completed : Bool

inductive Event where
  | checker (calls : Calls)
  | switcher

def Fifo.step (s : Fifo) (event : Event) : Option Fifo :=
  match event with
  | .checker calls =>
    let outcome := handler s.config calls
    some { s with
      config := outcome.stored.getD s.config
      queue := s.queue ++ outcome.sent
      unsettled := if outcome.stored.isSome then [] else s.unsettled ++ outcome.sent
      completed := outcome.stored.isSome }
  | .switcher =>
    match s.queue with
    | message :: queue => some { s with queue, subnets := switch s.subnets message }
    | [] => none

/-- The table of the subnet once the queue is drained. -/
def Fifo.destined (s : Fifo) (subnet_id : String) : String :=
  told s.queue subnet_id (s.subnets subnet_id)

/-- Runs of allowed events. -/
def Fifo.Runs (Allowed : Fifo → Event → Prop) : Fifo → Fifo → Prop :=
  Relation.ReflTransGen fun before after => ∃ event, Allowed before event ∧ before.step event = some after

/-- Once an invocation completes and the queue is drained, the subnet is
attached as the stored configuration says, if it was at the start. -/
def Recovers (Allowed : String → Fifo → Event → Prop) : Prop :=
  ∀ start s subnet_id, start.queue = [] → start.unsettled = [] → start.config.Sole subnet_id →
    start.config.Attaches subnet_id (start.subnets subnet_id) →
      Fifo.Runs (Allowed subnet_id) start s → s.completed = true → s.queue = [] →
        s.config.Attaches subnet_id (s.subnets subnet_id)

/-- An invocation that completes turns the destination of the subnet when a
failed invocation before it has sent a message for the subnet: the router is
still, or again, down and `primary`, or up and `secondary`. -/
def Repeats (subnet_id : String) (s : Fifo) (event : Event) : Prop :=
  ∀ calls fullStatus, event = .checker calls → calls.targetStates = some fullStatus →
    (handler s.config calls).stored ≠ none → (∃ message ∈ s.unsettled, message.subnet_id = subnet_id) →
      ∀ entry ∈ s.config.routes_config, entry.2.Owns subnet_id → (observed fullStatus entry).2.Turns

/-- The intermediate clearing leaves no trace. -/
theorem switch_apply (subnets : String → String) (message : Message) (subnet_id : String) :
    switch subnets message subnet_id = told [message] subnet_id (subnets subnet_id) := by
  rw [switch, Function.update_idem, told_singleton]
  by_cases hsubnet : message.subnet_id = subnet_id
  · subst hsubnet
    rw [Function.update_self, if_pos rfl]
  · rw [Function.update_of_ne (Ne.symm hsubnet), if_neg hsubnet]

/-- What one invocation of the checker can do. -/
theorem handler_cases (config : Config) (calls : Calls) :
    (handler config calls).stored = none ∨ ∃ fullStatus, calls.targetStates = some fullStatus ∧
      handler config calls = ⟨config.notices fullStatus, some (dump (config.checked fullStatus))⟩ := by
  by_cases hget : calls.get_config
  · cases hrun : check_router_statuses config calls.targetStates with
    | mk messages result =>
      cases result with
      | error e => exact Or.inl (by simp [handler, hget, hrun])
      | ok after =>
        by_cases hcompletes : calls.send_message.elim messages messages.take = messages ∧ calls.put_config
        · have houtcome : handler config calls = ⟨messages, some (dump after)⟩ := by
            simp [handler, hget, hrun, hcompletes]
          obtain ⟨fullStatus, hreport, rfl, rfl⟩ := check_router_statuses_ok hrun
          exact Or.inr ⟨fullStatus, hreport, houtcome⟩
        · exact Or.inl (by simp [handler, hget, hrun, hcompletes])
  · exact Or.inl (by simp [handler, hget])

/-- The subnet follows the stored configuration unless a failed invocation has
sent a message for it. -/
structure Fifo.Follows (s : Fifo) (subnet_id : String) : Prop where
  sole : s.config.Sole subnet_id
  attaches : ∃ table, s.config.Attaches subnet_id table ∧
    (s.destined subnet_id = table ∨ ∃ message ∈ s.unsettled, message.subnet_id = subnet_id)
  settled : s.completed = true → s.unsettled = []

section follows

variable {s after : Fifo} {subnet_id : String}

theorem Fifo.destined_switcher (h : s.step .switcher = some after) (subnet_id : String) :
    after.destined subnet_id = s.destined subnet_id := by
  rw [Fifo.step] at h
  split at h
  · next message queue hqueue =>
    cases h
    rw [Fifo.destined, Fifo.destined, hqueue, told_cons]
    exact congrArg (told queue subnet_id) (switch_apply ..)
  · cases h

theorem Fifo.Follows.switcher (h : s.Follows subnet_id) (hstep : s.step .switcher = some after) :
    after.Follows subnet_id := by
  have hdestined := Fifo.destined_switcher hstep subnet_id
  rw [Fifo.step] at hstep
  split at hstep
  · cases hstep
    exact ⟨h.sole, by rw [hdestined]; exact h.attaches, h.settled⟩
  · cases hstep

/-- A failed invocation leaves the configuration alone. -/
theorem Fifo.Follows.failed (h : s.Follows subnet_id) {calls : Calls}
    (hfailed : (handler s.config calls).stored = none) (hstep : s.step (.checker calls) = some after) :
    after.Follows subnet_id := by
  obtain ⟨table, hattaches, hdestined⟩ := h.attaches
  rw [Fifo.step, hfailed] at hstep
  cases hstep
  refine ⟨h.sole, ⟨table, hattaches, ?_⟩, fun hcompleted => by cases hcompleted⟩
  simp only [Fifo.destined, told_append, Option.isSome_none, Bool.false_eq_true, if_false]
  by_cases hsent : ∃ message ∈ (handler s.config calls).sent, message.subnet_id = subnet_id
  · obtain ⟨message, hmessage, hsubnet⟩ := hsent
    exact Or.inr ⟨message, List.mem_append_right _ hmessage, hsubnet⟩
  · obtain hdestined | ⟨message, hmessage, hsubnet⟩ := hdestined
    · refine Or.inl ((journal.last_of_forall_ne (fun message hmessage hsubnet => ?_) _).trans hdestined)
      exact hsent ⟨message, hmessage, hsubnet⟩
    · exact Or.inr ⟨message, List.mem_append_left _ hmessage, hsubnet⟩

/-- An invocation that completes settles the subnet, if it repeats what failed
invocations have begun. -/
theorem Fifo.Follows.completes (h : s.Follows subnet_id) {calls : Calls} {fullStatus : List TargetState}
    (hreport : calls.targetStates = some fullStatus)
    (hhandler : handler s.config calls = ⟨s.config.notices fullStatus, some (dump (s.config.checked fullStatus))⟩)
    (hrepeats : Repeats subnet_id s (.checker calls)) (hstep : s.step (.checker calls) = some after) :
    after.Follows subnet_id := by
  obtain ⟨table, hattaches, hdestined⟩ := h.attaches
  have hnext := hattaches.checked h.sole fullStatus
  rw [Fifo.step, hhandler] at hstep
  cases hstep
  refine ⟨(h.sole.checked fullStatus).dump, ⟨_, ?_, Or.inl rfl⟩, fun _ => rfl⟩
  refine Config.Attaches.dump (fun later hlater hown => ?_)
  rw [hnext later hlater hown, Fifo.destined, told_append]
  obtain hdestined | hunsettled := hdestined
  · rw [← hdestined]
    rfl
  · obtain ⟨entry, hentry, rfl⟩ := List.mem_map.mp hlater
    rw [Destination.Owns, checked_subnets] at hown
    have hturns := hrepeats calls fullStatus rfl hreport (by rw [hhandler]; simp) hunsettled entry hentry hown
    have hnotice : (⟨subnet_id, (checked fullStatus entry).2.table⟩ : Message) ∈ s.config.notices fullStatus :=
      mem_notices.mpr ⟨entry, hentry, hturns, hown, rfl⟩
    exact journal.last_congr ⟨_, hnotice, rfl⟩ _ _

theorem Fifo.Follows.step (h : s.Follows subnet_id) {event : Event} (hrepeats : Repeats subnet_id s event)
    (hstep : s.step event = some after) : after.Follows subnet_id := by
  cases event with
  | switcher => exact h.switcher hstep
  | checker calls =>
    obtain hfailed | ⟨fullStatus, hreport, hhandler⟩ := handler_cases s.config calls
    · exact h.failed hfailed hstep
    · exact h.completes hreport hhandler hrepeats hstep

end follows

theorem Fifo.keeps_follows (subnet_id : String) :
    invariant.Keeps (fun before after => ∃ event, Repeats subnet_id before event ∧ before.step event = some after)
      fun s => s.Follows subnet_id := by
  rintro s after hfollows ⟨event, hrepeats, hstep⟩
  exact hfollows.step hrepeats hstep

/-- The checker recovers from failed invocations in every run in which each
invocation that completes repeats what they have begun. -/
theorem recovers_when_repeated : Recovers Repeats := by
  intro start s subnet_id hqueue hunsettled hsole hattaches hrun hcompleted hdrained
  have hstart : start.Follows subnet_id :=
    ⟨hsole, ⟨_, hattaches, Or.inl (by rw [Fifo.destined, hqueue]; rfl)⟩, fun _ => hunsettled⟩
  have hfollows : s.Follows subnet_id := (Fifo.keeps_follows subnet_id).run hrun hstart
  obtain ⟨table, hs, hdestined⟩ := hfollows.attaches
  obtain rfl | ⟨message, hmessage, _⟩ := hdestined
  · rwa [Fifo.destined, hdrained] at hs
  · rw [hfollows.settled hcompleted] at hmessage
    cases hmessage

/-- The template, drained and in agreement. -/
def template_fifo : Fifo where
  config := template_config .primary .primary
  queue := []
  subnets := template_subnets
  unsettled := []
  completed := true

/-- An invocation under a report of the template, with the outcome of the
upload. -/
def template_checker (first second : TargetStatus) (put_config : Bool) : Event :=
  .checker { get_config := true, targetStates := some (template_report first second), send_message := none, put_config }

def Fifo.after (s : Fifo) (event : Event) : Fifo :=
  (s.step event).getD s

theorem Fifo.step_after {s : Fifo} {event : Event} (h : (s.step event).isSome) :
    s.step event = some (s.after event) := by
  obtain ⟨after, hafter⟩ := Option.isSome_iff_exists.mp h
  rw [Fifo.after, hafter, Option.getD_some]

/-- The state after an invocation whose upload fails, with its message handled. -/
def upload_failed : Fifo :=
  (template_fifo.after (template_checker .UNHEALTHY .HEALTHY false)).after .switcher

theorem upload_failed_runs (Allowed : Fifo → Event → Prop)
    (hchecker : Allowed template_fifo (template_checker .UNHEALTHY .HEALTHY false))
    (hswitcher : ∀ s, Allowed s .switcher) : Fifo.Runs Allowed template_fifo upload_failed :=
  .tail (.single ⟨_, hchecker, Fifo.step_after (by decide)⟩) ⟨_, hswitcher _, Fifo.step_after (by decide)⟩

/-- When the router is still down, the next invocation repairs the failed one. -/
theorem recovers_when_repeated_template :
    let s := (upload_failed.after (template_checker .UNHEALTHY .HEALTHY true)).after .switcher
    s.config.Attaches "e9b-subnet-a" (s.subnets "e9b-subnet-a") := by
  intro s
  have hswitcher (s : Fifo) : Repeats "e9b-subnet-a" s .switcher := fun _ _ h => by cases h
  have hfailed : Repeats "e9b-subnet-a" template_fifo (template_checker .UNHEALTHY .HEALTHY false) := by
    intro calls fullStatus h _ hstored
    cases h
    exact absurd (by decide) hstored
  have hrepeated : Repeats "e9b-subnet-a" upload_failed (template_checker .UNHEALTHY .HEALTHY true) := by
    intro calls fullStatus h hreport _ _
    cases h
    cases hreport
    decide
  refine recovers_when_repeated template_fifo s "e9b-subnet-a" rfl rfl (template_config_sole _ _ _)
    (template_config_attaches _) ?_ (by decide) (by decide)
  exact .tail (.tail (upload_failed_runs _ hfailed hswitcher) ⟨_, hrepeated, Fifo.step_after (by decide)⟩)
    ⟨_, hswitcher _, Fifo.step_after (by decide)⟩

/-- When the router recovers before the next invocation, that invocation sends
nothing, and the subnet stays on the secondary table. -/
theorem failed_upload_diverges : ¬ Recovers fun _ _ _ => True := by
  intro h
  have hattaches := h template_fifo (upload_failed.after (template_checker .HEALTHY .HEALTHY true)) "e9b-subnet-a"
    rfl rfl (template_config_sole _ _ _) (template_config_attaches _)
    (.tail (upload_failed_runs _ trivial fun _ => trivial) ⟨_, trivial, Fifo.step_after (by decide)⟩)
    (by decide) (by decide)
  revert hattaches
  decide

end solution_library.route_switcher_v1
