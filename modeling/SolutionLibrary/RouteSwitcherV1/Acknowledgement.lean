import SolutionLibrary.RouteSwitcherV1.Recovery

namespace solution_library.route_switcher_v1.switcher_function

/-- What ends an invocation of the switcher early: a Python exception or the end
of its execution time. -/
inductive Exn where
  | requestException
  | jsonDecodeError
  | keyError (key : String)
  | timeout
  deriving DecidableEq

/-- The fields that the switcher reads of the JSON of an operation. -/
structure Operation where
  id : Option String
  done : Option Bool
  error : Option String

abbrev Response := Except Exn Operation

/-- `r.json()[key]`. -/
def field {α : Type} (key : String) (value : Option α) : Except Exn α :=
  value.elim (.error (.keyError key)) .ok

inductive Status where
  | ok
  | error
  deriving DecidableEq

/-- The loop over the polls of one operation, as many as the execution time
allows. -/
def check_operation : List Response → Except Exn Status
  | [] => .error .timeout
  | response :: responses => do
    let r ← response
    let operationStatus ← field "done" r.done
    if r.error.isSome then .ok .error
    else if operationStatus then .ok .ok
    else check_operation responses

/-- One pass of the retry loop: the answer to its PATCH, and the answers to the
polls of the operation. -/
structure Try where
  patch : Response
  polls : List Response

def Try.operation_status (attempt : Try) : Except Exn Status := do
  let r ← attempt.patch
  let _operation_id ← field "id" r.id
  check_operation attempt.polls

/-- `for num in nums`. An operation that is done without an error has attached
the table, one with an error has changed nothing. -/
def retry_loop (route_table_id subnet_id : String) (tries : ℕ → Try) (subnets : String → String) :
    List ℕ → Except Exn (String → String)
  | [] => .ok subnets
  | num :: nums => do
    match ← (tries num).operation_status with
    | .ok => .ok (Function.update subnets subnet_id route_table_id)
    | .error => retry_loop route_table_id subnet_id tries subnets nums

def retry_rt_switch_operation (route_table_id subnet_id : String) (tries : ℕ → Try) (num_tries : ℕ)
    (subnets : String → String) : Except Exn (String → String) :=
  retry_loop route_table_id subnet_id tries subnets (List.range num_tries)

/-- A message with what its two retry loops meet. -/
structure Delivery extends Message where
  detach : ℕ → Try
  attach : ℕ → Try

def failover (subnets : String → String) (msg : Delivery) : Except Exn (String → String) := do
  let subnets ← retry_rt_switch_operation "" msg.subnet_id msg.detach 10 subnets
  retry_rt_switch_operation msg.route_table_id msg.subnet_id msg.attach 10 subnets

def handler (subnets : String → String) (messages : List Delivery) : Except Exn (String → String) :=
  messages.foldlM failover subnets

/-- One of the ten operations is done without an error. -/
def Succeeds (tries : ℕ → Try) : Prop :=
  ∃ num < 10, (tries num).operation_status = .ok .ok

instance (tries : ℕ → Try) : Decidable (Succeeds tries) :=
  inferInstanceAs (Decidable (∃ num < 10, (tries num).operation_status = .ok .ok))

/-- The requests of a message in their order, the one that clears the table
first. -/
def Delivery.requests (msg : Delivery) : List (Message × (ℕ → Try)) :=
  [(⟨msg.subnet_id, ""⟩, msg.detach), (msg.toMessage, msg.attach)]

/-- The requests that take effect. -/
def effects (messages : List Delivery) : List Message :=
  ((messages.flatMap Delivery.requests).filter fun request => Succeeds request.2).map Prod.fst

/-- Every subnet of the messages is attached to the table that the last of its
messages requests, and no subnet has lost its table without such a request. -/
structure Finished (messages : List Delivery) (subnets after : String → String) : Prop where
  attached : ∀ msg ∈ messages,
    after msg.subnet_id = told (messages.map Delivery.toMessage) msg.subnet_id (subnets msg.subnet_id)
  not_detached : ∀ subnet_id, after subnet_id = "" →
    subnets subnet_id = "" ∨ ∃ msg ∈ messages, msg.toMessage = ⟨subnet_id, ""⟩

/-- One of the ten operations that attach the table succeeds, or all twenty
operations fail on a subnet that has the table already. (A request to clear the
table may rely on the first ten.) -/
def Secured (subnets : String → String) (earlier : List Delivery) (msg : Delivery) : Prop :=
  Succeeds msg.attach ∨ Succeeds msg.detach ∧ msg.route_table_id = "" ∨
    ¬ Succeeds msg.detach ∧
      told (effects earlier) msg.subnet_id (subnets msg.subnet_id) = msg.route_table_id

section failover

variable {route_table_id subnet_id : String} {tries : ℕ → Try} {subnets after : String → String}

theorem retry_loop_ok {nums : List ℕ}
    (h : retry_loop route_table_id subnet_id tries subnets nums = .ok after) :
    (∃ num ∈ nums, (tries num).operation_status = .ok .ok) ∧
        after = Function.update subnets subnet_id route_table_id ∨
      (∀ num ∈ nums, (tries num).operation_status ≠ .ok .ok) ∧ after = subnets := by
  induction nums with
  | nil =>
    cases h
    exact Or.inr ⟨by simp, rfl⟩
  | cons num nums ih =>
    rw [retry_loop] at h
    cases hstatus : (tries num).operation_status with
    | error e =>
      rw [hstatus] at h
      cases h
    | ok status =>
      rw [hstatus] at h
      cases status with
      | ok =>
        cases h
        exact Or.inl ⟨⟨num, List.mem_cons_self, hstatus⟩, rfl⟩
      | error =>
        have hnum : (tries num).operation_status ≠ .ok .ok := by
          rw [hstatus]
          simp
        obtain ⟨⟨other, hother, hok⟩, hafter⟩ | ⟨hnone, hafter⟩ := ih h
        · exact Or.inl ⟨⟨other, List.mem_cons_of_mem _ hother, hok⟩, hafter⟩
        · exact Or.inr ⟨List.forall_mem_cons.mpr ⟨hnum, hnone⟩, hafter⟩

/-- The loop returns normally in both cases. -/
theorem retry_rt_switch_operation_ok
    (h : retry_rt_switch_operation route_table_id subnet_id tries 10 subnets = .ok after) :
    Succeeds tries ∧ after = Function.update subnets subnet_id route_table_id ∨
      ¬ Succeeds tries ∧ after = subnets := by
  obtain ⟨⟨num, hnum, hok⟩, hafter⟩ | ⟨hnone, hafter⟩ := retry_loop_ok h
  · exact Or.inl ⟨⟨num, List.mem_range.mp hnum, hok⟩, hafter⟩
  · refine Or.inr ⟨?_, hafter⟩
    rintro ⟨num, hnum, hok⟩
    exact hnone num (List.mem_range.mpr hnum) hok

/-- The state after the loop, read as a message that arrives or not. -/
theorem retry_rt_switch_operation_apply
    (h : retry_rt_switch_operation route_table_id subnet_id tries 10 subnets = .ok after) (other : String) :
    after other = told (if Succeeds tries then [⟨subnet_id, route_table_id⟩] else []) other (subnets other) := by
  obtain ⟨hsucceeds, rfl⟩ | ⟨hsucceeds, rfl⟩ := retry_rt_switch_operation_ok h
  · rw [if_pos hsucceeds, told_singleton]
    by_cases hother : subnet_id = other
    · subst hother
      rw [Function.update_self, if_pos rfl]
    · rw [Function.update_of_ne (Ne.symm hother), if_neg hother]
  · rw [if_neg hsucceeds]
    rfl

theorem failover_apply {msg : Delivery} (h : failover subnets msg = .ok after) (other : String) :
    after other = told (effects [msg]) other (subnets other) := by
  rw [failover] at h
  cases hdetach : retry_rt_switch_operation "" msg.subnet_id msg.detach 10 subnets with
  | error e =>
    rw [hdetach] at h
    cases h
  | ok detached =>
    rw [hdetach] at h
    rw [retry_rt_switch_operation_apply h, retry_rt_switch_operation_apply hdetach, ← told_append]
    congr 1
    by_cases hdetaches : Succeeds msg.detach <;> by_cases hattaches : Succeeds msg.attach <;>
      simp [effects, Delivery.requests, hdetaches, hattaches]

theorem effects_append (first second : List Delivery) :
    effects (first ++ second) = effects first ++ effects second := by
  simp [effects]

theorem effects_cons (msg : Delivery) (messages : List Delivery) :
    effects (msg :: messages) = effects [msg] ++ effects messages :=
  effects_append [msg] messages

theorem told_effects_singleton (msg : Delivery) (table : String) :
    told (effects [msg]) msg.subnet_id table =
      if Succeeds msg.attach then msg.route_table_id else if Succeeds msg.detach then "" else table := by
  by_cases hdetach : Succeeds msg.detach <;> by_cases hattach : Succeeds msg.attach <;>
    simp [effects, Delivery.requests, hdetach, hattach, told, journal.last]

/-- Only the messages of a subnet touch it. -/
theorem mem_effects_subnet {messages : List Delivery} {effect : Message} (h : effect ∈ effects messages) :
    ∃ msg ∈ messages, msg.subnet_id = effect.subnet_id := by
  simp only [effects, List.mem_map, List.mem_filter, List.mem_flatMap] at h
  obtain ⟨request, ⟨⟨msg, hmsg, hrequest⟩, _⟩, rfl⟩ := h
  refine ⟨msg, hmsg, ?_⟩
  obtain rfl | hrequest := List.mem_cons.mp hrequest
  · rfl
  · obtain rfl := List.mem_singleton.mp hrequest
    rfl

theorem told_effects_of_forall_ne {messages : List Delivery} {subnet_id : String}
    (h : ∀ msg ∈ messages, msg.subnet_id ≠ subnet_id) (table : String) :
    told (effects messages) subnet_id table = table := by
  apply journal.last_of_forall_ne
  rintro effect heffect rfl
  obtain ⟨msg, hmsg, hsubnet⟩ := mem_effects_subnet heffect
  exact h msg hmsg hsubnet

theorem handler_cons_ok {msg : Delivery} {messages : List Delivery}
    (h : handler subnets (msg :: messages) = .ok after) :
    ∃ middle, failover subnets msg = .ok middle ∧ handler middle messages = .ok after := by
  rw [handler, List.foldlM_cons] at h
  cases hmsg : failover subnets msg with
  | error e =>
    rw [hmsg] at h
    cases h
  | ok middle =>
    rw [hmsg] at h
    exact ⟨middle, rfl, h⟩

theorem handler_apply {messages : List Delivery} (h : handler subnets messages = .ok after) (other : String) :
    after other = told (effects messages) other (subnets other) := by
  induction messages generalizing subnets with
  | nil =>
    cases h
    rfl
  | cons msg messages ih =>
    obtain ⟨middle, hmsg, hrest⟩ := handler_cons_ok h
    rw [ih hrest, failover_apply hmsg, ← told_append, ← effects_cons]

/-- Once the table is attached, the handling is the one without failures. -/
theorem failover_eq_switch {msg : Delivery} (h : failover subnets msg = .ok after) (hattach : Succeeds msg.attach) :
    after = switch subnets msg.toMessage := by
  funext other
  rw [failover_apply h, switch_apply, told_singleton]
  by_cases hother : msg.subnet_id = other
  · subst hother
    rw [told_effects_singleton, if_pos hattach, if_pos rfl]
  · rw [if_neg hother]
    apply told_effects_of_forall_ne
    simpa using hother

theorem handler_eq_foldl_switch {messages : List Delivery} (h : handler subnets messages = .ok after)
    (hattach : ∀ msg ∈ messages, Succeeds msg.attach) :
    after = (messages.map Delivery.toMessage).foldl switch subnets := by
  induction messages generalizing subnets with
  | nil =>
    cases h
    rfl
  | cons msg messages ih =>
    obtain ⟨hhead, htail⟩ := List.forall_mem_cons.mp hattach
    obtain ⟨middle, hmsg, hrest⟩ := handler_cons_ok h
    rw [List.map_cons, List.foldl_cons, ← failover_eq_switch hmsg hhead]
    exact ih hrest htail

/-- The last message of a subnet decides. -/
theorem attached_iff_secured {earlier later : List Delivery} {msg : Delivery}
    (h : handler subnets (earlier ++ msg :: later) = .ok after)
    (hlast : ∀ other ∈ later, other.subnet_id ≠ msg.subnet_id) :
    after msg.subnet_id = msg.route_table_id ↔ Secured subnets earlier msg := by
  have hafter : after msg.subnet_id =
      told (effects [msg]) msg.subnet_id (told (effects earlier) msg.subnet_id (subnets msg.subnet_id)) := by
    rw [handler_apply h, effects_append, effects_cons, told_append, told_append, told_effects_of_forall_ne hlast]
  rw [hafter, told_effects_singleton, Secured]
  by_cases hattach : Succeeds msg.attach
  · simp [hattach]
  · by_cases hdetach : Succeeds msg.detach
    · simp [hattach, hdetach, @eq_comm _ ""]
    · simp [hattach, hdetach]

theorem told_last {earlier later : List Delivery} {msg : Delivery}
    (hlast : ∀ other ∈ later, other.subnet_id ≠ msg.subnet_id) (table : String) :
    told ((earlier ++ msg :: later).map Delivery.toMessage) msg.subnet_id table = msg.route_table_id := by
  rw [List.map_append, List.map_cons, told_append, told_cons, told_singleton, if_pos rfl]
  apply journal.last_of_forall_ne
  simpa using hlast

/-- A subnet of the messages has a last message. -/
theorem exists_last_message {messages : List Delivery} {msg : Delivery} (hmsg : msg ∈ messages) :
    ∃ earlier final later, messages = earlier ++ final :: later ∧ final.subnet_id = msg.subnet_id ∧
      ∀ other ∈ later, other.subnet_id ≠ final.subnet_id := by
  induction messages generalizing msg with
  | nil => cases hmsg
  | cons head messages ih =>
    by_cases hrest : ∃ other ∈ messages, other.subnet_id = msg.subnet_id
    · obtain ⟨other, hother, hsubnet⟩ := hrest
      obtain ⟨earlier, final, later, rfl, hfinal, hlast⟩ := ih hother
      exact ⟨head :: earlier, final, later, rfl, hfinal.trans hsubnet, hlast⟩
    · obtain rfl | hmsg := List.mem_cons.mp hmsg
      · exact ⟨[], msg, messages, rfl, rfl, fun other hother hsubnet => hrest ⟨other, hother, hsubnet⟩⟩
      · exact absurd ⟨msg, hmsg, rfl⟩ hrest

/-- A subnet without a table had none, or one of its messages has requested so. -/
theorem Finished.of_attached {messages : List Delivery} (h : handler subnets messages = .ok after)
    (hattached : ∀ msg ∈ messages,
      after msg.subnet_id = told (messages.map Delivery.toMessage) msg.subnet_id (subnets msg.subnet_id)) :
    Finished messages subnets after := by
  refine ⟨hattached, fun subnet_id hempty => ?_⟩
  by_cases hsubnet : ∃ msg ∈ messages, msg.subnet_id = subnet_id
  · obtain ⟨msg, hmsg, rfl⟩ := hsubnet
    have hwritten : ∃ request ∈ messages.map Delivery.toMessage, request.subnet_id = msg.subnet_id :=
      ⟨_, List.mem_map_of_mem hmsg, rfl⟩
    obtain ⟨request, hrequest, hkey, hlast⟩ := journal.exists_last Message.route_table_id hwritten
    obtain ⟨requested, hrequested, rfl⟩ := List.mem_map.mp hrequest
    rw [hattached msg hmsg, told, hlast] at hempty
    refine Or.inr ⟨requested, hrequested, ?_⟩
    rw [← hkey, ← hempty]
  · left
    rw [← hempty, handler_apply h, told_effects_of_forall_ne]
    exact fun msg hmsg heq => hsubnet ⟨msg, hmsg, heq⟩

/-- A run that returns normally has finished its work exactly if the last message
of every subnet is secured. -/
theorem finished_iff {messages : List Delivery} (h : handler subnets messages = .ok after) :
    Finished messages subnets after ↔ ∀ earlier msg later, messages = earlier ++ msg :: later →
      (∀ other ∈ later, other.subnet_id ≠ msg.subnet_id) → Secured subnets earlier msg := by
  constructor
  · rintro hfinished earlier msg later rfl hlast
    have hattached := hfinished.attached msg (by simp)
    rw [told_last hlast] at hattached
    exact (attached_iff_secured h hlast).mp hattached
  · intro hsecured
    have hattached : ∀ msg ∈ messages,
        after msg.subnet_id = told (messages.map Delivery.toMessage) msg.subnet_id (subnets msg.subnet_id) := by
      intro msg hmsg
      obtain ⟨earlier, final, later, rfl, hfinal, hlast⟩ := exists_last_message hmsg
      rw [← hfinal, told_last hlast]
      exact (attached_iff_secured h hlast).mpr (hsecured earlier final later rfl hlast)
    exact Finished.of_attached h hattached

end failover

/-- A pass whose operation is under way at the first poll and then ends. -/
def polled_try (error : Option String) : Try where
  patch := .ok ⟨some "enpoperation", some false, none⟩
  polls := [.ok ⟨some "enpoperation", some false, none⟩, .ok ⟨some "enpoperation", some true, error⟩]

/-- A fail-over of the template. The operations that attach the table fail a
number of times. -/
def template_delivery (failures : ℕ) : Delivery where
  subnet_id := "e9b-subnet-a"
  route_table_id := "enp-rt-b"
  detach := fun _ => polled_try none
  attach := fun num => polled_try (if num < failures then some "Operation is not permitted now" else none)

/-- Nine failures are made up for by the tenth operation. -/
theorem finished_template :
    ∃ after, handler template_subnets [template_delivery 9] = .ok after ∧
      Finished [template_delivery 9] template_subnets after := by
  refine ⟨_, rfl, (finished_iff rfl).mpr ?_⟩
  intro earlier msg later hsplit _
  have hmsg : msg ∈ [template_delivery 9] := by simp [hsplit]
  obtain rfl := List.mem_singleton.mp hmsg
  exact Or.inl ⟨9, by decide, rfl⟩

/-- After ten failures the run returns normally, and the subnet has no table. -/
theorem detached_subnet_acknowledged :
    ∃ messages subnets after, handler subnets messages = .ok after ∧ after "e9b-subnet-a" = "" ∧
      ¬ Finished messages subnets after := by
  refine ⟨[template_delivery 10], template_subnets, _, rfl, by decide, fun hfinished => ?_⟩
  have hattached := hfinished.attached (template_delivery 10) (by simp)
  revert hattached
  decide

end solution_library.route_switcher_v1.switcher_function
