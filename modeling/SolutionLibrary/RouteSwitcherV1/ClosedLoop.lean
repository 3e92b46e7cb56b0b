import SolutionLibrary.RouteSwitcherV1.Acknowledgement

open solution_library.invariant

namespace solution_library.route_switcher_v1.closed_loop

open switcher_function (Try Delivery Secured Succeeds retry_rt_switch_operation)

/-- What happens in the system with the real switcher: an invocation of the
checker, or one of the switcher with the message at the head of the queue.
`pending` is whether the operation that an exception leaves unobserved takes
effect, before the message is delivered again. -/
inductive Event where
  | checker (calls : Calls)
  | switcher (detach attach : ℕ → Try) (pending : Bool)

/-- What an invocation of the switcher has done when an exception ends it: in the
loop that clears the table, or in the one that sets it. -/
def interrupted (subnets : String → String) (msg : Delivery) (pending : Bool) : String → String :=
  match retry_rt_switch_operation "" msg.subnet_id msg.detach 10 subnets with
  | .error _ => if pending then Function.update subnets msg.subnet_id "" else subnets
  | .ok detached => if pending then Function.update detached msg.subnet_id msg.route_table_id else detached

/-- The trigger delivers one message at a time. The queue deletes it when the
invocation returns normally, and delivers it again when it does not. -/
def step (s : Fifo) : Event → Option Fifo
  | .checker calls => s.step (.checker calls)
  | .switcher detach attach pending =>
    match s.queue with
    | [] => none
    | message :: queue =>
      let msg : Delivery := { message with detach, attach }
      match switcher_function.handler s.subnets [msg] with
      | .ok subnets => some { s with queue, subnets }
      | .error _ => some { s with subnets := interrupted s.subnets msg pending }

/-- An invocation that returns normally has secured the table of its message. -/
def Secures (s : Fifo) : Event → Prop
  | .checker _ => True
  | .switcher detach attach _ =>
    ∀ message ∈ s.queue.head?, ∀ subnets,
      switcher_function.handler s.subnets [{ message with detach, attach }] = .ok subnets →
        Secured s.subnets [] { message with detach, attach }

/-- Runs in which the checker's invocations are allowed, and the switcher
acknowledges only what it has secured. -/
def Runs (Allowed : Fifo → Calls → Prop) : Fifo → Fifo → Prop :=
  Relation.ReflTransGen fun before after => ∃ event, Secures before event ∧
    (∀ calls, event = .checker calls → Allowed before calls) ∧ step before event = some after

/-- The same runs when messages are applied at once. -/
def Direct (Allowed : Fifo → Calls → Prop) : Fifo → Fifo → Prop :=
  Fifo.Runs fun s event => ∀ calls, event = .checker calls → Allowed s calls

/-- The condition reads nothing but the stored configuration and the messages
of failed invocations. -/
def Observes (Allowed : Fifo → Calls → Prop) : Prop :=
  ∀ s t calls, s.config = t.config → s.unsettled = t.unsettled → Allowed s calls → Allowed t calls

/-- A state with the real switcher and one with messages applied at once: they
are the same except for the subnet whose message is at the head of the queue. -/
structure Matches (s t : Fifo) : Prop where
  config : s.config = t.config
  queue : s.queue = t.queue
  unsettled : s.unsettled = t.unsettled
  completed : s.completed = t.completed
  subnets : ∀ subnet_id, s.subnets subnet_id = t.subnets subnet_id ∨
    ∃ message ∈ s.queue.head?, message.subnet_id = subnet_id

section simulation

variable {s t after : Fifo}

theorem Matches.refl (s : Fifo) : Matches s s :=
  ⟨rfl, rfl, rfl, rfl, fun _ => .inl rfl⟩

/-- Drained states that match are the same. -/
theorem Matches.eq_of_drained (h : Matches s t) (hdrained : s.queue = []) : s = t := by
  obtain ⟨config, queue, subnets, unsettled, completed⟩ := s
  obtain ⟨hconfig, hqueue, hunsettled, hcompleted, hsubnets⟩ := h
  have hsame : subnets = t.subnets := by
    funext subnet_id
    simpa [show queue = [] from hdrained] using hsubnets subnet_id
  subst hconfig hqueue hunsettled hcompleted hsame
  rfl

/-- A retry loop touches no other subnet. -/
theorem retry_of_ne {route_table_id subnet_id other : String} {tries : ℕ → Try} {subnets middle : String → String}
    (h : retry_rt_switch_operation route_table_id subnet_id tries 10 subnets = .ok middle) (hne : subnet_id ≠ other) :
    middle other = subnets other := by
  obtain ⟨-, rfl⟩ | ⟨-, rfl⟩ := switcher_function.retry_rt_switch_operation_ok h
  · exact Function.update_of_ne hne.symm _ _
  · rfl

theorem interrupted_of_ne {subnets : String → String} {msg : Delivery} {other : String} (hne : msg.subnet_id ≠ other)
    (pending : Bool) : interrupted subnets msg pending other = subnets other := by
  cases hdetach : retry_rt_switch_operation "" msg.subnet_id msg.detach 10 subnets with
  | error e =>
    rw [interrupted, hdetach]
    cases pending with
    | true => exact Function.update_of_ne hne.symm _ _
    | false => rfl
  | ok detached =>
    rw [interrupted, hdetach]
    cases pending with
    | true => exact (Function.update_of_ne hne.symm _ _).trans (retry_of_ne hdetach hne)
    | false => exact retry_of_ne hdetach hne

/-- An invocation that returns normally and has secured its message has applied
it, whatever the subnet was attached to. -/
theorem handler_secured {subnets after : String → String} {msg : Delivery}
    (h : switcher_function.handler subnets [msg] = .ok after) (hsecured : Secured subnets [] msg) (other : String) :
    after other = switch subnets msg.toMessage other := by
  rw [switch_apply, told_singleton]
  split
  · next hsame =>
    have hsplit : switcher_function.handler subnets ([] ++ msg :: []) = .ok after := h
    rw [← hsame]
    exact (switcher_function.attached_iff_secured hsplit (by simp)).mpr hsecured
  · next hne =>
    rw [switcher_function.handler_apply h]
    apply switcher_function.told_effects_of_forall_ne
    simpa using hne

theorem Matches.checker (h : Matches s t) {calls : Calls} (hstep : s.step (.checker calls) = some after) :
    ∃ last, t.step (.checker calls) = some last ∧ Matches after last := by
  obtain ⟨hconfig, hqueue, hunsettled, hcompleted, hsubnets⟩ := h
  rw [Fifo.step] at hstep
  cases hstep
  refine ⟨_, rfl, ?_⟩
  simp only [← hconfig, ← hqueue, ← hunsettled]
  refine ⟨rfl, rfl, rfl, rfl, fun subnet_id => (hsubnets subnet_id).imp_right ?_⟩
  -- a checker appends to the queue, so the head stays where there is one
  rintro ⟨message, hhead, hsubnet⟩
  obtain ⟨rest, hrest⟩ := List.head?_eq_some_iff.mp hhead
  exact ⟨message, by rw [hrest]; rfl, hsubnet⟩

/-- The message that a normal return deletes has been applied; an exception
leaves it at the head of the queue. -/
theorem Matches.switcher (h : Matches s t) {detach attach : ℕ → Try} {pending : Bool}
    (hsecures : Secures s (.switcher detach attach pending))
    (hstep : step s (.switcher detach attach pending) = some after) :
    Matches after t ∨ ∃ last, t.step .switcher = some last ∧ Matches after last := by
  obtain ⟨hconfig, hqueue, hunsettled, hcompleted, hsubnets⟩ := h
  rw [step] at hstep
  cases hmessages : s.queue with
  | nil =>
    rw [hmessages] at hstep
    cases hstep
  | cons message queue =>
    simp only [hmessages] at hstep
    simp only [hmessages, List.head?_cons, Option.mem_some_iff, exists_eq_left'] at hsubnets
    cases hhandler : switcher_function.handler s.subnets [{ message with detach, attach }] with
    | error e =>
      left
      rw [hhandler] at hstep
      cases hstep
      refine ⟨hconfig, hmessages.symm.trans hqueue, hunsettled, hcompleted, fun subnet_id => ?_⟩
      by_cases hsame : message.subnet_id = subnet_id
      · exact .inr ⟨message, rfl, hsame⟩
      · refine .inl ((interrupted_of_ne hsame pending).trans ?_)
        exact (hsubnets subnet_id).resolve_right hsame
    | ok subnets =>
      right
      rw [hhandler] at hstep
      cases hstep
      have hsecured := hsecures message (by rw [hmessages]; rfl) subnets hhandler
      refine ⟨{ t with queue, subnets := switch t.subnets message }, ?_, hconfig, rfl, hunsettled, hcompleted, ?_⟩
      · rw [Fifo.step, ← hqueue, hmessages]
      · intro subnet_id
        left
        change subnets subnet_id = switch t.subnets message subnet_id
        rw [handler_secured hhandler hsecured, switch_apply, switch_apply]
        obtain hsame | hsame := hsubnets subnet_id
        · rw [hsame]
        · rw [told_singleton, told_singleton, if_pos hsame, if_pos hsame]

/-- The real switcher refines the one that applies its messages at once. -/
theorem simulates {Allowed : Fifo → Calls → Prop} (hobserves : Observes Allowed) :
    Simulates (fun before after => ∃ event, Secures before event ∧
        (∀ calls, event = .checker calls → Allowed before calls) ∧ step before event = some after)
      (fun before after => ∃ event, (∀ calls, event = .checker calls → Allowed before calls) ∧
        before.step event = some after) Matches := by
  rintro s after t hmatches ⟨event, hsecures, hallowed, hstep⟩
  cases event with
  | checker calls =>
    obtain ⟨last, hlast, hafter⟩ := hmatches.checker hstep
    refine ⟨last, .single ⟨_, ?_, hlast⟩, hafter⟩
    rintro _ ⟨⟩
    exact hobserves s t calls hmatches.config hmatches.unsettled (hallowed calls rfl)
  | switcher detach attach pending =>
    obtain hafter | ⟨last, hlast, hafter⟩ := hmatches.switcher hsecures hstep
    · exact ⟨t, .refl, hafter⟩
    · refine ⟨last, .single ⟨_, ?_, hlast⟩, hafter⟩
      rintro _ ⟨⟩

end simulation

theorem observes_repeats (subnet_id : String) : Observes fun s calls => Repeats subnet_id s (.checker calls) := by
  rintro s t calls hconfig hunsettled hrepeats other fullStatus ⟨⟩ hreport
  rw [← hconfig, ← hunsettled]
  exact hrepeats calls fullStatus rfl hreport

/-- An attempt whose operation is under way when the execution time ends. -/
def stalled_try : Try where
  patch := .ok ⟨some "enpoperation", some false, none⟩
  polls := [.ok ⟨some "enpoperation", some false, none⟩]

/-- An invocation that ends after it has cleared the table of its message. -/
def interruption : Event :=
  .switcher (fun _ => switcher_function.polled_try none) (fun _ => stalled_try) false

/-- An invocation without failures. -/
def handling : Event :=
  .switcher (fun _ => switcher_function.polled_try none) (fun _ => switcher_function.polled_try none) false

def template_check (put_config : Bool) : Event :=
  .checker ⟨true, some (template_report .UNHEALTHY .HEALTHY), none, put_config⟩

def after (s : Fifo) (event : Event) : Fifo :=
  (step s event).getD s

theorem step_after {s : Fifo} {event : Event} (h : (step s event).isSome) : step s event = some (after s event) := by
  obtain ⟨last, hlast⟩ := Option.isSome_iff_exists.mp h
  rw [after, hlast, Option.getD_some]

/-- An upload fails, and the invocation for its message is interrupted. -/
def left_detached : Fifo :=
  after (after template_fifo (template_check false)) interruption

/-- The message is delivered again, and the checker repeats its work. -/
def recovered : Fifo :=
  after (after (after left_detached handling) (template_check true)) handling

theorem secures_handling (s : Fifo) : Secures s handling :=
  fun _ _ _ _ => .inl ⟨0, by decide, rfl⟩

theorem secures_interruption (s : Fifo) : Secures s interruption := by
  intro message _ subnets h
  cases h

theorem recovered_runs : Runs (fun s calls => Repeats "e9b-subnet-a" s (.checker calls)) template_fifo recovered := by
  have hfailed : Repeats "e9b-subnet-a" template_fifo (template_checker .UNHEALTHY .HEALTHY false) := by
    rintro calls fullStatus ⟨⟩ _ hstored
    exact absurd (by decide) hstored
  have hrepeated :
      Repeats "e9b-subnet-a" (after left_detached handling) (template_checker .UNHEALTHY .HEALTHY true) := by
    rintro calls fullStatus ⟨⟩ ⟨⟩ _ _
    decide
  refine .tail (.tail (.tail (.tail (.single ⟨template_check false, trivial, ?_, step_after (by decide)⟩)
    ⟨_, secures_interruption _, ?_, step_after (by decide)⟩) ⟨_, secures_handling _, ?_, step_after (by decide)⟩)
    ⟨template_check true, trivial, ?_, step_after (by decide)⟩) ⟨_, secures_handling _, ?_, step_after (by decide)⟩
  · rintro calls ⟨⟩
    exact hfailed
  · rintro calls ⟨⟩
  · rintro calls ⟨⟩
  · rintro calls ⟨⟩
    exact hrepeated
  · rintro calls ⟨⟩

/-- A drained state that the system reaches with retries, exceptions and
deliveries made again is one that it reaches with every message applied once. -/
theorem drained_directly {Allowed : Fifo → Calls → Prop} (hobserves : Observes Allowed) {start s : Fifo}
    (hrun : Runs Allowed start s) (hdrained : s.queue = []) : Direct Allowed start s := by
  obtain ⟨last, hlast, hmatches⟩ := (simulates hobserves).run hrun (Matches.refl start)
  rw [hmatches.eq_of_drained hdrained]
  exact hlast

theorem drained_directly_template :
    Direct (fun s calls => Repeats "e9b-subnet-a" s (.checker calls)) template_fifo recovered :=
  drained_directly (observes_repeats _) recovered_runs (by decide)

/-- The system recovers from failed invocations of the checker and from
interrupted ones of the switcher. -/
theorem recovers {start s : Fifo} {subnet_id : String} (hqueue : start.queue = []) (hunsettled : start.unsettled = [])
    (hsole : start.config.Sole subnet_id) (hattaches : start.config.Attaches subnet_id (start.subnets subnet_id))
    (hrun : Runs (fun s calls => Repeats subnet_id s (.checker calls)) start s) (hcompleted : s.completed = true)
    (hdrained : s.queue = []) : s.config.Attaches subnet_id (s.subnets subnet_id) := by
  obtain ⟨last, hlast, hmatches⟩ := (simulates (observes_repeats subnet_id)).run hrun (Matches.refl start)
  obtain rfl := hmatches.eq_of_drained hdrained
  have hstart : start.Follows subnet_id :=
    ⟨hsole, ⟨_, hattaches, Or.inl (by rw [Fifo.destined, hqueue]; rfl)⟩, fun _ => hunsettled⟩
  have hrepeats : Fifo.Runs (Repeats subnet_id) start s := by
    refine Relation.ReflTransGen.mono ?_ _ _ hlast
    rintro before after ⟨event, hevent, hstep⟩
    refine ⟨event, ?_, hstep⟩
    rintro calls fullStatus rfl
    exact hevent calls rfl calls fullStatus rfl
  have hfollows : s.Follows subnet_id := (Fifo.keeps_follows subnet_id).run hrepeats hstart
  obtain ⟨table, hs, rfl | ⟨message, hmessage, _⟩⟩ := hfollows.attaches
  · rwa [Fifo.destined, hdrained] at hs
  · rw [hfollows.settled hcompleted] at hmessage
    cases hmessage

/-- The interrupted invocation leaves the subnet without a table until its
message is delivered again. -/
theorem recovers_template : left_detached.subnets "e9b-subnet-a" = "" ∧
    recovered.config.Attaches "e9b-subnet-a" (recovered.subnets "e9b-subnet-a") :=
  ⟨by decide, recovers rfl rfl (template_config_sole _ _ _) (template_config_attaches _) recovered_runs (by decide)
    (by decide)⟩

end solution_library.route_switcher_v1.closed_loop
