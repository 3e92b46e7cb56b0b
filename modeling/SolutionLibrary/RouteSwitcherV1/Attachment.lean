import SolutionLibrary.RouteSwitcherV1.Checker

namespace solution_library.route_switcher_v1

/-- The subnet belongs to the destination. -/
def Destination.Owns (value : Destination) (subnet_id : String) : Prop :=
  subnet_id ∈ value.subnets.getD []

/-- The subnet belongs to one destination at most. -/
def Config.Sole (config : Config) (subnet_id : String) : Prop :=
  ∀ first ∈ config.routes_config, ∀ second ∈ config.routes_config,
    first.2.Owns subnet_id → second.2.Owns subnet_id → first = second

/-- The stored configuration attaches the subnet to the route table: the table
is `route_table[active]` of every destination that the subnet belongs to. -/
def Config.Attaches (config : Config) (subnet_id table : String) : Prop :=
  ∀ entry ∈ config.routes_config, entry.2.Owns subnet_id → entry.2.table = table

instance (value : Destination) (subnet_id : String) : Decidable (value.Owns subnet_id) :=
  inferInstanceAs (Decidable (subnet_id ∈ value.subnets.getD []))

instance (config : Config) (subnet_id : String) : Decidable (config.Sole subnet_id) :=
  inferInstanceAs (Decidable (∀ first ∈ config.routes_config, ∀ second ∈ config.routes_config,
    first.2.Owns subnet_id → second.2.Owns subnet_id → first = second))

instance (config : Config) (subnet_id table : String) : Decidable (config.Attaches subnet_id table) :=
  inferInstanceAs (Decidable (∀ entry ∈ config.routes_config, entry.2.Owns subnet_id → entry.2.table = table))

/-- The table in the last message for the subnet. -/
def told (messages : List Message) (subnet_id table : String) : String :=
  journal.last Message.subnet_id Message.route_table_id messages subnet_id table

theorem told_append (first second : List Message) (subnet_id table : String) :
    told (first ++ second) subnet_id table = told second subnet_id (told first subnet_id table) :=
  journal.last_append ..

theorem told_singleton (message : Message) (subnet_id table : String) :
    told [message] subnet_id table = if message.subnet_id = subnet_id then message.route_table_id else table := rfl

theorem told_cons (message : Message) (messages : List Message) (subnet_id table : String) :
    told (message :: messages) subnet_id table = told messages subnet_id (told [message] subnet_id table) :=
  told_append [message] messages subnet_id table

/-- The messages of a run of the checker under a report. -/
def Config.notices (config : Config) (fullStatus : List TargetState) : List Message :=
  config.routes_config.flatMap fun entry => (observed fullStatus entry).2.notices

/-- The configuration after a run of the checker under a report. -/
def Config.checked (config : Config) (fullStatus : List TargetState) : Config :=
  { config with routes_config := config.routes_config.map (route_switcher_v1.checked fullStatus) }

section checked

variable {config : Config} {subnet_id : String}

theorem mem_dump {entry : String × Destination} : entry ∈ (dump config).routes_config ↔ entry ∈ config.routes_config :=
  (List.perm_insertionSort _ _).mem_iff

theorem Config.Sole.dump (h : config.Sole subnet_id) : (dump config).Sole subnet_id :=
  fun first hfirst second hsecond => h first (mem_dump.mp hfirst) second (mem_dump.mp hsecond)

theorem Config.Attaches.dump {table : String} (h : config.Attaches subnet_id table) :
    (dump config).Attaches subnet_id table :=
  fun entry hentry => h entry (mem_dump.mp hentry)

theorem Config.Sole.checked (h : config.Sole subnet_id) (fullStatus : List TargetState) :
    (config.checked fullStatus).Sole subnet_id := by
  intro first hfirst second hsecond hown hown'
  obtain ⟨one, hone, rfl⟩ := List.mem_map.mp hfirst
  obtain ⟨two, htwo, rfl⟩ := List.mem_map.mp hsecond
  rw [Destination.Owns, checked_subnets] at hown hown'
  rw [h one hone two htwo hown hown']

theorem mem_notices {fullStatus : List TargetState} {message : Message} :
    message ∈ config.notices fullStatus ↔ ∃ entry ∈ config.routes_config,
      (observed fullStatus entry).2.Turns ∧ entry.2.Owns message.subnet_id ∧
        message.route_table_id = (route_switcher_v1.checked fullStatus entry).2.table := by
  simp only [Config.notices, List.mem_flatMap, Destination.mem_notices, observed_subnets]
  rfl

/-- A run of the checker attaches a subnet of one destination to the table that
its messages name last. -/
theorem Config.Attaches.checked {table : String} (hattaches : config.Attaches subnet_id table)
    (hsole : config.Sole subnet_id) (fullStatus : List TargetState) :
    (config.checked fullStatus).Attaches subnet_id (told (config.notices fullStatus) subnet_id table) := by
  intro after hafter hown
  obtain ⟨entry, hentry, rfl⟩ := List.mem_map.mp hafter
  rw [Destination.Owns, checked_subnets] at hown
  by_cases hturns : (observed fullStatus entry).2.Turns
  · refine (journal.last_of_forall_eq (fun message hmessage hsubnet => ?_) ?_ table).symm
    · obtain ⟨other, hother, _, hotherOwn, htable⟩ := mem_notices.mp hmessage
      rw [hsubnet] at hotherOwn
      rw [htable, hsole other hother entry hentry hotherOwn hown]
    · exact ⟨⟨subnet_id, (route_switcher_v1.checked fullStatus entry).2.table⟩,
        mem_notices.mpr ⟨entry, hentry, hturns, hown, rfl⟩, rfl⟩
  · rw [told, journal.last_of_forall_ne]
    · rw [route_switcher_v1.checked, Destination.turned_of_not hturns, observed_table]
      exact hattaches entry hentry hown
    · rintro message hmessage rfl
      obtain ⟨other, hother, hotherTurns, hotherOwn, _⟩ := mem_notices.mp hmessage
      rw [hsole other hother entry hentry hotherOwn hown] at hotherTurns
      exact hturns hotherTurns

end checked

/-- A configuration of the shape of the template, with one subnet in each
zone. -/
def template_config (first second : Active) : Config where
  loadBalancerId := "lb"
  targetGroupId := "tg"
  routes_config :=
    [("192.168.1.10", ⟨first, ⟨"enp-rt-a", "enp-rt-b"⟩, some ["e9b-subnet-a"], none⟩),
      ("192.168.2.10", ⟨second, ⟨"enp-rt-b", "enp-rt-a"⟩, some ["e2l-subnet-b"], none⟩)]

def template_report (first second : TargetStatus) : List TargetState :=
  [⟨"192.168.1.10", first⟩, ⟨"192.168.2.10", second⟩]

/-- The attachments at the start: every subnet on its primary table. -/
def template_subnets (subnet_id : String) : String :=
  if subnet_id = "e9b-subnet-a" then "enp-rt-a" else "enp-rt-b"

theorem template_owner {entry : String × Destination} {first second : Active} {subnet_id : String}
    (hentry : entry ∈ (template_config first second).routes_config) (hown : entry.2.Owns subnet_id) :
    subnet_id = "e9b-subnet-a" ∧
        entry = ("192.168.1.10", ⟨first, ⟨"enp-rt-a", "enp-rt-b"⟩, some ["e9b-subnet-a"], none⟩) ∨
      subnet_id = "e2l-subnet-b" ∧
        entry = ("192.168.2.10", ⟨second, ⟨"enp-rt-b", "enp-rt-a"⟩, some ["e2l-subnet-b"], none⟩) := by
  obtain rfl | hentry := List.mem_cons.mp hentry
  · exact Or.inl ⟨List.mem_singleton.mp hown, rfl⟩
  · obtain rfl := List.mem_singleton.mp hentry
    exact Or.inr ⟨List.mem_singleton.mp hown, rfl⟩

theorem template_config_sole (first second : Active) (subnet_id : String) :
    (template_config first second).Sole subnet_id := by
  intro one hone two htwo hown hown'
  obtain ⟨rfl, rfl⟩ | ⟨rfl, rfl⟩ := template_owner hone hown <;>
    obtain ⟨hsubnet, rfl⟩ | ⟨hsubnet, rfl⟩ := template_owner htwo hown'
  · rfl
  · exact absurd hsubnet (by decide)
  · exact absurd hsubnet (by decide)
  · rfl

theorem template_config_attaches (subnet_id : String) :
    (template_config .primary .primary).Attaches subnet_id (template_subnets subnet_id) := by
  intro entry hentry hown
  obtain ⟨rfl, rfl⟩ | ⟨rfl, rfl⟩ := template_owner hentry hown <;> decide

end solution_library.route_switcher_v1
