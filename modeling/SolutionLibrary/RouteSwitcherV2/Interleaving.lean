import Mathlib.Data.List.FinRange
import SolutionLibrary.Library.Invariant
import SolutionLibrary.Library.Schedule
import SolutionLibrary.RouteSwitcherV2.Tick

namespace solution_library.route_switcher_v2

/-- The API steps of an invocation with their outcomes, and the edit of a route
table by an operator. -/
inductive Act where
  | get_config (succeeds : Bool)
  | getTargetStates (answer : Answer (Option (List TargetState)))
  | get_route_table (route_table_id : String) (answer : Answer Unit)
  | failover (table : RouteTable) (takes_effect : Bool)
  | put_config (config : Config) (succeeds : Bool)
  | edit (route_table_id : String) (routes : List StaticRoute)

/-- Where a party stands between two steps, with all that it has read. -/
inductive Progress where
  | start
  | got_config (config : Config)
  | reading (config : Config) (hops : NextHops) (remaining : List ConfigRouteTable) (checked : List CheckedTable)
  | requesting (effects : Effects)
  | editing (route_table_id : String) (routes : List StaticRoute)
  deriving DecidableEq

/-- The loop over the route tables ends with the requests. -/
def Progress.read (config : Config) (hops : NextHops) (remaining : List ConfigRouteTable)
    (checked : List CheckedTable) : Progress :=
  if remaining = [] then .requesting (.of config checked) else .reading config hops remaining checked

/-- The thread pool sends the PATCH requests in any order. The upload waits for
all of them. -/
def next (back_to_primary : Bool) (act : Act) (cloud : Cloud) (progress : Progress) : Option Progress :=
  match act, progress with
  | .get_config succeeds, .start => some (if succeeds then .got_config cloud.config else .requesting .nothing)
  | .getTargetStates answer, .got_config config =>
    match check_targets config answer, config.route_tables with
    | .ok (some hops), some route_tables => some (.read config hops route_tables [])
    | _, _ => some (.requesting .nothing)
  | .get_route_table id answer, .reading config hops (entry :: remaining) checked =>
    if entry.route_table_id = id then
      match check_route_table back_to_primary hops (answer.map fun _ => some (cloud.tables id)) entry with
      | .ok result => some (.read config hops remaining (checked ++ [result]))
      | .error _ => some (.requesting .nothing)
    else none
  | .failover table _, .requesting effects =>
    if table ∈ effects.all_routeTables then
      some (.requesting { effects with all_routeTables := effects.all_routeTables.erase table })
    else none
  | .put_config config _, .requesting effects =>
    if effects = ⟨[], some config⟩ then some (.requesting .nothing) else none
  | .edit id routes, .editing route_table_id edited =>
    if id = route_table_id ∧ routes = edited then some (.requesting .nothing) else none
  | _, _ => none

def write (act : Act) (cloud : Cloud) : Cloud :=
  match act with
  | .failover table true => { cloud with tables := patch cloud.tables table }
  | .put_config config true => { cloud with config }
  | .edit id routes => { cloud with tables := Function.update cloud.tables id routes }
  | _ => cloud

/-- Nothing guards the accesses to the shared state: no lock, no version. -/
def system (back_to_primary : Bool) : schedule.System Act Cloud Progress where
  next := next back_to_primary
  write := write

inductive Resource where
  | config
  | table (id : String)
  deriving DecidableEq

/-- The part of the shared state that an act reads or writes. -/
def Act.touches : Act → Option Resource
  | .get_config _ => some .config
  | .getTargetStates _ => none
  | .get_route_table id _ => some (.table id)
  | .failover table _ => some (.table table.route_table_id)
  | .put_config _ _ => some .config
  | .edit id _ => some (.table id)

def Act.writes : Act → Bool
  | .failover _ takes_effect => takes_effect
  | .put_config _ succeeds => succeeds
  | .edit _ _ => true
  | _ => false

/-- Two acts touch the same route table, or the stored configuration, and one of
them writes it. -/
def Act.Conflicts (first second : Act) : Prop :=
  first.touches ≠ none ∧ first.touches = second.touches ∧ (first.writes ∨ second.writes)

instance (first second : Act) : Decidable (first.Conflicts second) :=
  inferInstanceAs (Decidable (_ ∧ _ ∧ _))

theorem Act.Conflicts.symm {first second : Act} (h : first.Conflicts second) : second.Conflicts first := by
  obtain ⟨hsome, hsame, hwrites⟩ := h
  exact ⟨hsame ▸ hsome, hsame.symm, hwrites.symm⟩

/-- An act that writes what another one touches conflicts with it. -/
theorem Act.Conflicts.of_touches {first second : Act} {resource : Resource} (hfirst : first.touches = some resource)
    (hsecond : second.touches = some resource) (hwrites : first.writes ∨ second.writes) : first.Conflicts second :=
  ⟨by simp [hfirst], hfirst.trans hsecond.symm, hwrites⟩

theorem write_of_reads {act : Act} (h : act.writes = false) (cloud : Cloud) : write act cloud = cloud := by
  cases act with
  | failover table takes_effect =>
    cases takes_effect with
    | false => rfl
    | true => cases h
  | put_config config succeeds =>
    cases succeeds with
    | false => rfl
    | true => cases h
  | edit id routes => cases h
  | _ => rfl

theorem config_write {act : Act} (h : act.touches ≠ some .config) (cloud : Cloud) :
    (write act cloud).config = cloud.config := by
  cases act with
  | failover table takes_effect => cases takes_effect <;> rfl
  | put_config config succeeds => exact absurd rfl h
  | _ => rfl

theorem tables_write {act : Act} {id : String} (h : act.touches ≠ some (.table id)) (cloud : Cloud) :
    (write act cloud).tables id = cloud.tables id := by
  cases act with
  | failover table takes_effect =>
    cases takes_effect with
    | false => rfl
    | true =>
      refine Function.update_of_ne ?_ _ _
      rintro rfl
      exact h rfl
  | put_config config succeeds => cases succeeds <;> rfl
  | edit other routes =>
    refine Function.update_of_ne ?_ _ _
    rintro rfl
    exact h rfl
  | _ => rfl

theorem config_write_congr {cloud other : Cloud} (h : cloud.config = other.config) (act : Act) :
    (write act cloud).config = (write act other).config := by
  cases act with
  | failover table takes_effect => cases takes_effect <;> exact h
  | put_config config succeeds => cases succeeds <;> first | rfl | exact h
  | _ => exact h

theorem tables_write_congr {cloud other : Cloud} {id : String} (h : cloud.tables id = other.tables id) (act : Act) :
    (write act cloud).tables id = (write act other).tables id := by
  cases act with
  | failover table takes_effect => cases takes_effect <;> simp [write, patch, Function.update_apply, h]
  | put_config config succeeds => cases succeeds <;> exact h
  | edit other routes => simp [write, Function.update_apply, h]
  | _ => exact h

/-- An act depends on the part of the shared state that it touches. -/
theorem next_congr {back_to_primary : Bool} {act : Act} {cloud other : Cloud}
    (hconfig : act.touches = some .config → cloud.config = other.config)
    (htables : ∀ id, act.touches = some (.table id) → cloud.tables id = other.tables id) (progress : Progress) :
    next back_to_primary act cloud progress = next back_to_primary act other progress := by
  cases act with
  | get_config succeeds => cases progress <;> simp [next, hconfig rfl]
  | get_route_table id answer =>
    cases progress with
    | reading config hops remaining checked => cases remaining <;> simp [next, htables id rfl]
    | _ => rfl
  | _ => cases progress <;> rfl

/-- What another party writes elsewhere does not matter to an act. -/
theorem next_write {back_to_primary : Bool} {first second : Act} (h : ¬ first.Conflicts second) (cloud : Cloud)
    (progress : Progress) :
    next back_to_primary first (write second cloud) progress = next back_to_primary first cloud progress := by
  by_cases hwrites : second.writes
  · have hdiffer {resource : Resource} (hfirst : first.touches = some resource) :
        second.touches ≠ some resource :=
      fun hsecond => h (.of_touches hfirst hsecond (Or.inr hwrites))
    exact next_congr (fun hfirst => config_write (hdiffer hfirst) cloud)
      (fun id hfirst => tables_write (hdiffer hfirst) cloud) progress
  · rw [write_of_reads (by simpa using hwrites)]

theorem write_comm {first second : Act} (h : ¬ first.Conflicts second) (cloud : Cloud) :
    write first (write second cloud) = write second (write first cloud) := by
  by_cases hwrites : first.writes
  · have hdiffer {resource : Resource} (hfirst : first.touches = some resource) :
        second.touches ≠ some resource :=
      fun hsecond => h (.of_touches hfirst hsecond (Or.inl hwrites))
    ext1
    · funext id
      by_cases hfirst : first.touches = some (.table id)
      · rw [tables_write (hdiffer hfirst), tables_write_congr (tables_write (hdiffer hfirst) cloud)]
      · rw [tables_write hfirst, tables_write_congr (tables_write hfirst cloud)]
    · by_cases hfirst : first.touches = some .config
      · rw [config_write (hdiffer hfirst), config_write_congr (config_write (hdiffer hfirst) cloud)]
      · rw [config_write hfirst, config_write_congr (config_write hfirst cloud)]
  · have hnone (cloud : Cloud) : write first cloud = cloud := write_of_reads (by simpa using hwrites) cloud
    rw [hnone, hnone]

theorem independent_of_not_conflicts (back_to_primary : Bool) (first second : Act) (h : ¬ first.Conflicts second) :
    (system back_to_primary).Independent first second where
  write_comm := write_comm h
  next_first := next_write h
  next_second := next_write fun hconflict => h hconflict.symm

/-- What an invocation alone can have reached from `cloud`: it has read a prefix
of the tables, or it has some of the requests of `handler` left. -/
inductive Reached (back_to_primary : Bool) (cloud : Cloud) : Cloud → Progress → Prop where
  | start : Reached back_to_primary cloud cloud .start
  | got_config : Reached back_to_primary cloud cloud (.got_config cloud.config)
  | reading {answer : Answer (Option (List TargetState))} {hops : NextHops}
      {read remaining : List ConfigRouteTable} {checked : List CheckedTable} {routeTables : ℕ → Answer Unit}
      (htargets : check_targets cloud.config answer = .ok (some hops))
      (hconfig : cloud.config.route_tables = some (read ++ remaining))
      (hchecked : read.zipIdx.mapM (fun x => check_route_table back_to_primary hops
        ((routeTables x.2).map fun _ => some (cloud.tables x.1.route_table_id)) x.1) = .ok checked) :
      Reached back_to_primary cloud cloud (.reading cloud.config hops remaining checked)
  | requesting {calls : Calls} {effects : Effects}
      (hpossible : (calls.failover ++ effects.all_routeTables).Subperm
        (handler back_to_primary cloud calls).all_routeTables)
      (hput : effects.put_config ≠ none →
        (handler back_to_primary cloud calls).put_config = effects.put_config) :
      Reached back_to_primary cloud (tick back_to_primary cloud calls) (.requesting effects)

section alone

variable {back_to_primary : Bool} {cloud : Cloud}

variable (back_to_primary cloud) in
/-- The requests of the handler are left when it comes to them. -/
theorem Reached.of_handler {calls : Calls} (hfailover : calls.failover = []) (hput : calls.put_config = false) :
    Reached back_to_primary cloud cloud (.requesting (handler back_to_primary cloud calls)) := by
  have hsame : tick back_to_primary cloud calls = cloud := by simp [tick, hfailover, hput]
  have hreached : Reached back_to_primary cloud (tick back_to_primary cloud calls)
      (.requesting (handler back_to_primary cloud calls)) :=
    .requesting (by rw [hfailover]; exact List.Subperm.refl _) fun _ => rfl
  rwa [hsame] at hreached

/-- An invocation that ends before the requests has none. -/
theorem Reached.of_nothing (calls : Calls) (h : handler back_to_primary cloud calls = .nothing)
    (hfailover : calls.failover = []) (hput : calls.put_config = false) :
    Reached back_to_primary cloud cloud (.requesting .nothing) := by
  have hreached := Reached.of_handler back_to_primary cloud hfailover hput
  rwa [h] at hreached

/-- The outcomes of the reads of an invocation. -/
def Calls.reads (targetStates : Answer (Option (List TargetState))) (routeTables : ℕ → Answer Unit) : Calls :=
  { get_config := true, targetStates, routeTables, failover := [], put_config := false }

/-- After the loop over the route tables the requests are those of `handler`. -/
theorem Reached.read {answer : Answer (Option (List TargetState))} {hops : NextHops}
    (read : List ConfigRouteTable) {remaining : List ConfigRouteTable} {checked : List CheckedTable}
    (routeTables : ℕ → Answer Unit)
    (htargets : check_targets cloud.config answer = .ok (some hops))
    (hconfig : cloud.config.route_tables = some (read ++ remaining))
    (hchecked : read.zipIdx.mapM (fun x => check_route_table back_to_primary hops
      ((routeTables x.2).map fun _ => some (cloud.tables x.1.route_table_id)) x.1) = .ok checked) :
    Reached back_to_primary cloud cloud (.read cloud.config hops remaining checked) := by
  unfold Progress.read
  split
  · next hend =>
    subst hend
    rw [List.append_nil] at hconfig
    have heffects : handler back_to_primary cloud (.reads answer routeTables) = .of cloud.config checked := by
      simp only [handler, Calls.reads, if_true, check_router_statuses, htargets, hconfig, bind, Except.bind]
      rw [hchecked]
      rfl
    exact heffects ▸ Reached.of_handler _ _ rfl rfl
  · exact .reading htargets hconfig hchecked

/-- A table whose inspection raises ends the invocation without requests. -/
theorem handler_of_raise {answer : Answer (Option (List TargetState))} {hops : NextHops}
    {read remaining : List ConfigRouteTable} {entry : ConfigRouteTable} {e : Exn} (routeTables : ℕ → Answer Unit)
    (htargets : check_targets cloud.config answer = .ok (some hops))
    (hconfig : cloud.config.route_tables = some (read ++ entry :: remaining))
    (hraise : check_route_table back_to_primary hops
      ((routeTables read.length).map fun _ => some (cloud.tables entry.route_table_id)) entry = .error e) :
    handler back_to_primary cloud (.reads answer routeTables) = .nothing := by
  have hposition : (entry, read.length) ∈ (read ++ entry :: remaining).zipIdx := by
    rw [List.mem_zipIdx_iff_getElem?]
    simp
  obtain ⟨e, he⟩ := traversal.mapM_error (l := (read ++ entry :: remaining).zipIdx)
    (f := fun x => check_route_table back_to_primary hops
      ((routeTables x.2).map fun _ => some (cloud.tables x.1.route_table_id)) x.1)
    ⟨_, hposition, e, hraise⟩
  simp only [handler, Calls.reads, if_true, check_router_statuses, htargets, hconfig, bind, Except.bind]
  rw [he]

/-- One more table is read. -/
theorem mapM_read_append {hops : NextHops} {read : List ConfigRouteTable} {entry : ConfigRouteTable}
    {checked : List CheckedTable} {result : CheckedTable} {routeTables : ℕ → Answer Unit} {answer : Answer Unit}
    (hchecked : read.zipIdx.mapM (fun x => check_route_table back_to_primary hops
      ((routeTables x.2).map fun _ => some (cloud.tables x.1.route_table_id)) x.1) = .ok checked)
    (hresult : check_route_table back_to_primary hops
      (answer.map fun _ => some (cloud.tables entry.route_table_id)) entry = .ok result) :
    (read ++ [entry]).zipIdx.mapM (fun x => check_route_table back_to_primary hops
      ((Function.update routeTables read.length answer x.2).map fun _ =>
        some (cloud.tables x.1.route_table_id)) x.1) = .ok (checked ++ [result]) := by
  rw [List.zipIdx_append]
  refine traversal.mapM_append_ok ((traversal.mapM_congr fun x hx => ?_).trans hchecked) ?_
  · have hne : x.2 ≠ read.length := by
      have hlt := List.mem_zipIdx_iff_getElem?.mp hx
      have := (List.getElem?_eq_some_iff.mp hlt).1
      omega
    rw [Function.update_of_ne hne]
  · simp [hresult]

/-- A PATCH request is sent. -/
theorem Reached.failover {calls : Calls} {effects : Effects} {table : RouteTable}
    (hpossible : (calls.failover ++ effects.all_routeTables).Subperm
      (handler back_to_primary cloud calls).all_routeTables)
    (hput : effects.put_config ≠ none → (handler back_to_primary cloud calls).put_config = effects.put_config)
    (htable : table ∈ effects.all_routeTables) (takes_effect : Bool) :
    Reached back_to_primary cloud (write (.failover table takes_effect) (tick back_to_primary cloud calls))
      (.requesting { effects with all_routeTables := effects.all_routeTables.erase table }) := by
  cases takes_effect with
  | false =>
    refine .requesting (List.Subperm.trans ?_ hpossible) hput
    exact (List.subperm_append_left _).mpr List.erase_sublist.subperm
  | true =>
    have hnow : write (.failover table true) (tick back_to_primary cloud calls) =
        tick back_to_primary cloud { calls with failover := calls.failover ++ [table] } := by
      simp only [write, tick, List.foldl_append]
      rfl
    rw [hnow]
    refine .requesting (List.Subperm.trans ?_ hpossible) hput
    rw [List.append_assoc]
    exact (List.subperm_append_left _).mpr (List.perm_cons_erase htable).symm.subperm

/-- The upload is the last request. -/
theorem Reached.put_config {calls : Calls} {config : Config}
    (hpossible : (calls.failover ++ []).Subperm (handler back_to_primary cloud calls).all_routeTables)
    (hput : (handler back_to_primary cloud calls).put_config = some config) (succeeds : Bool) :
    Reached back_to_primary cloud (write (.put_config config succeeds) (tick back_to_primary cloud calls))
      (.requesting .nothing) := by
  cases succeeds with
  | false => exact .requesting hpossible fun h => absurd rfl h
  | true =>
    have hnow : write (.put_config config true) (tick back_to_primary cloud calls) =
        tick back_to_primary cloud { calls with put_config := true } := by
      have hsame : handler back_to_primary cloud { calls with put_config := true } =
        handler back_to_primary cloud calls := rfl
      simp [write, tick, hsame, hput]
    rw [hnow]
    exact .requesting hpossible fun h => absurd rfl h

/-- The report is read. -/
theorem Reached.getTargetStates {answer : Answer (Option (List TargetState))} {after : Progress}
    (hnext : next back_to_primary (.getTargetStates answer) cloud (.got_config cloud.config) = some after) :
    Reached back_to_primary cloud cloud after := by
  simp only [next] at hnext
  split at hnext
  · next hops route_tables htargets hconfig =>
    cases hnext
    exact .read [] (fun _ => .failed) htargets hconfig rfl
  · next hother =>
    cases hnext
    refine .of_nothing (.reads answer fun _ => .failed) ?_ rfl rfl
    obtain hnothing | ⟨hops, route_tables, _, htargets, hconfig, _⟩ :=
      handler_cases back_to_primary cloud (.reads answer fun _ => .failed)
    · exact hnothing
    · exact absurd hconfig (hother hops route_tables htargets)

/-- The next route table is read. -/
theorem Reached.get_route_table {answer : Answer (Option (List TargetState))} {hops : NextHops}
    {read remaining : List ConfigRouteTable} {checked : List CheckedTable} {routeTables : ℕ → Answer Unit}
    {id : String} {table : Answer Unit} {after : Progress}
    (htargets : check_targets cloud.config answer = .ok (some hops))
    (hconfig : cloud.config.route_tables = some (read ++ remaining))
    (hchecked : read.zipIdx.mapM (fun x => check_route_table back_to_primary hops
      ((routeTables x.2).map fun _ => some (cloud.tables x.1.route_table_id)) x.1) = .ok checked)
    (hnext : next back_to_primary (.get_route_table id table) cloud (.reading cloud.config hops remaining checked) =
      some after) : Reached back_to_primary cloud cloud after := by
  cases remaining with
  | nil => simp [next] at hnext
  | cons entry remaining =>
    simp only [next, Option.ite_none_right_eq_some] at hnext
    obtain ⟨rfl, hnext⟩ := hnext
    split at hnext
    · next result hresult =>
      cases hnext
      exact .read _ _ htargets (by rw [hconfig, List.append_assoc]; rfl) (mapM_read_append hchecked hresult)
    · next e he =>
      cases hnext
      exact .of_nothing _ (handler_of_raise (fun _ => table) htargets hconfig he) rfl rfl

/-- Every step of an invocation alone leads on to what it can have reached. -/
theorem Reached.step {now : Cloud} {progress after : Progress} {act : Act}
    (h : Reached back_to_primary cloud now progress) (hnext : next back_to_primary act now progress = some after) :
    Reached back_to_primary cloud (write act now) after := by
  cases h with
  | start =>
    cases act with
    | get_config succeeds =>
      cases succeeds with
      | true =>
        cases hnext
        exact .got_config
      | false =>
        cases hnext
        exact .of_nothing { Calls.reads .failed (fun _ => .failed) with get_config := false } rfl rfl rfl
    | _ => simp [next] at hnext
  | got_config =>
    cases act with
    | getTargetStates answer => exact .getTargetStates hnext
    | _ => simp [next] at hnext
  | @reading answer hops read remaining checked routeTables htargets hconfig hchecked =>
    cases act with
    | get_route_table id table => exact .get_route_table htargets hconfig hchecked hnext
    | _ => simp [next] at hnext
  | @requesting calls effects hpossible hput =>
    cases act with
    | failover table takes_effect =>
      simp only [next, Option.ite_none_right_eq_some] at hnext
      obtain ⟨htable, hnext⟩ := hnext
      cases hnext
      exact .failover hpossible hput htable takes_effect
    | put_config config succeeds =>
      simp only [next, Option.ite_none_right_eq_some] at hnext
      obtain ⟨rfl, hnext⟩ := hnext
      cases hnext
      exact .put_config hpossible (hput (by simp)) succeeds
    | _ => simp [next] at hnext

theorem keeps_reached : invariant.Keeps (system back_to_primary).Step
    fun state => Reached back_to_primary cloud state.1 state.2 := by
  rintro ⟨now, progress⟩ ⟨_, after⟩ hreached ⟨act, hnext, rfl⟩
  exact hreached.step hnext

/-- An invocation that runs alone to its end is a tick. -/
theorem tick_of_run {acts : List Act} {last : Cloud}
    (hrun : (system back_to_primary).run acts cloud .start = some (last, .requesting .nothing)) :
    ∃ calls : Calls, calls.Possible back_to_primary cloud ∧ last = tick back_to_primary cloud calls := by
  have hreached : Reached back_to_primary cloud last (.requesting .nothing) :=
    keeps_reached.run (schedule.System.reflTransGen_of_run hrun) .start
  cases hreached with
  | @requesting calls effects hpossible hput =>
    exact ⟨calls, by simpa [Effects.nothing, Calls.Possible] using hpossible, rfl⟩

theorem edit_of_run {id : String} {routes : List StaticRoute} {acts : List Act} {last : Cloud}
    (hrun : (system back_to_primary).run acts cloud (.editing id routes) = some (last, .requesting .nothing)) :
    last = { cloud with tables := Function.update cloud.tables id routes } := by
  cases acts with
  | nil => cases hrun
  | cons act acts =>
    obtain ⟨after, hnext, hrest⟩ := Option.bind_eq_some_iff.mp hrun
    cases act with
    | edit other edited =>
      simp only [system, next, Option.ite_none_right_eq_some] at hnext
      obtain ⟨⟨rfl, rfl⟩, hnext⟩ := hnext
      cases hnext
      cases acts with
      | nil =>
        cases hrest
        rfl
      | cons act acts =>
        obtain ⟨after, hnext, _⟩ := Option.bind_eq_some_iff.mp hrest
        cases act <;> simp [system, next, Effects.nothing] at hnext
    | _ => simp [system, next] at hnext

end alone

/-- An invocation of the function, or an operator with an edit of a table. -/
inductive Party where
  | invocation
  | edit (route_table_id : String) (routes : List StaticRoute)
  deriving DecidableEq

def Party.start : Party → Progress
  | .invocation => .start
  | .edit id routes => .editing id routes

/-- What a party does to the shared state when nobody else acts. -/
def Party.Does (back_to_primary : Bool) (party : Party) (cloud last : Cloud) : Prop :=
  match party with
  | .invocation => ∃ calls : Calls, calls.Possible back_to_primary cloud ∧ last = tick back_to_primary cloud calls
  | .edit id routes => last = { cloud with tables := Function.update cloud.tables id routes }

/-- The parties act one after another. -/
def Sequential {n : ℕ} (back_to_primary : Bool) (parties : Fin n → Party) : List (Fin n) → Cloud → Cloud → Prop
  | [], cloud, last => cloud = last
  | party :: order, cloud, last => ∃ middle, (parties party).Does back_to_primary cloud middle ∧
      Sequential back_to_primary parties order middle last

/-- An interleaving of the steps of the parties in which all of them come to
their ends. -/
def Completes {n : ℕ} (back_to_primary : Bool) (parties : Fin n → Party) (events : List (Fin n × Act))
    (cloud last : Cloud) : Prop :=
  ∃ final, (system back_to_primary).exec events cloud (fun party => (parties party).start) = some (last, final) ∧
    ∀ party, final party = .requesting .nothing

/-- Every interleaving has the result of some sequential order. -/
def NoLostUpdate : Prop :=
  ∀ back_to_primary n (parties : Fin n → Party) events cloud last,
    Completes back_to_primary parties events cloud last →
      ∃ order : List (Fin n), order.Perm (List.finRange n) ∧ Sequential back_to_primary parties order cloud last

theorem sequential_of_serial {n : ℕ} {back_to_primary : Bool} {parties : Fin n → Party} {acts : Fin n → List Act}
    {final : Fin n → Progress} (hfinal : ∀ party, final party = .requesting .nothing) {order : List (Fin n)}
    {cloud last : Cloud}
    (h : (system back_to_primary).Serial acts (fun party => (parties party).start) final order cloud last) :
    Sequential back_to_primary parties order cloud last := by
  induction order generalizing cloud with
  | nil => exact h
  | cons party order ih =>
    obtain ⟨middle, hrun, hrest⟩ := h
    refine ⟨middle, ?_, ih hrest⟩
    rw [hfinal] at hrun
    cases hparty : parties party with
    | invocation =>
      simp only [hparty, Party.start] at hrun
      exact tick_of_run hrun
    | edit id routes =>
      simp only [hparty, Party.start] at hrun
      exact edit_of_run hrun

/-- Two invocations for the README set-up, and an operator who adds a route. -/
def readme_parties : Fin 3 → Party
  | 0 => .invocation
  | 1 => .invocation
  | 2 => .edit "enp000000000000dmzrt" [default_route "10.160.1.10", ⟨"10.0.0.0/8", some (.gateway_id "enpgateway"), []⟩]

def recorded_cloud : Cloud :=
  readme_cloud (some ((∅ : Routes).insert "0.0.0.0/0" "10.160.1.10")) "10.160.1.10"

/-- What an invocation reads after its configuration. -/
def readme_reads (party : Fin 3) : List (Fin 3 × Act) :=
  [(party, .getTargetStates (.ok (some (readme_report .UNHEALTHY .HEALTHY)))),
    (party, .get_route_table "enp000000000000dmzrt" (.ok ()))]

def readme_failover (party : Fin 3) : Fin 3 × Act :=
  (party, .failover ⟨"enp000000000000dmzrt", "10.160.2.10", [default_route "10.160.2.10"]⟩ true)

def readme_edit : Fin 3 × Act :=
  (2, .edit "enp000000000000dmzrt" [default_route "10.160.1.10", ⟨"10.0.0.0/8", some (.gateway_id "enpgateway"), []⟩])

/-- The second invocation reads the table after the failover by the first one,
and has nothing to do. -/
def ordered_events : List (Fin 3 × Act) :=
  (0, .get_config true) :: (1, .get_config true) :: readme_reads 0 ++ readme_failover 0 :: readme_reads 1 ++
    [readme_edit]

/-- Both invocations read the table before the first PATCH, and the operator
edits it before the second. -/
def overlapping_events : List (Fin 3 × Act) :=
  (0, .get_config true) :: (1, .get_config true) :: readme_reads 0 ++ readme_reads 1 ++
    [readme_failover 1, readme_edit, readme_failover 0]

theorem completes_of_isSome {n : ℕ} (back_to_primary : Bool) (parties : Fin n → Party)
    (events : List (Fin n × Act)) (cloud : Cloud)
    (h : ((system back_to_primary).exec events cloud fun party => (parties party).start).isSome)
    (hfinal : ∀ party, (((system back_to_primary).exec events cloud fun party => (parties party).start).get h).2 party =
      .requesting .nothing) :
    Completes back_to_primary parties events cloud
      (((system back_to_primary).exec events cloud fun party => (parties party).start).get h).1 :=
  ⟨_, (Option.some_get h).symm, hfinal⟩

/-- A tick neither adds nor removes routes. -/
theorem length_tick {back_to_primary : Bool} {cloud : Cloud} {calls : Calls}
    (hpossible : calls.Possible back_to_primary cloud) (id : String) :
    ((tick back_to_primary cloud calls).tables id).length = (cloud.tables id).length := by
  obtain hsame | ⟨hops, _, entry, _, _, _, _, _, hmoved⟩ := tick_tables hpossible id
  · rw [hsame]
  · rw [hmoved, (sort_routes_perm _).length_eq, moved, List.length_map]

/-- In a sequential order the table of an edit ends with as many routes as the
edit has, if there is no other edit. -/
theorem Sequential.length_eq {n : ℕ} {back_to_primary : Bool} {parties : Fin n → Party} {editor : Fin n} {id : String}
    {routes : List StaticRoute} (heditor : parties editor = .edit id routes)
    (hothers : ∀ party ≠ editor, parties party = .invocation) {order : List (Fin n)} {cloud last : Cloud}
    (h : Sequential back_to_primary parties order cloud last)
    (hedited : editor ∈ order ∨ (cloud.tables id).length = routes.length) :
    (last.tables id).length = routes.length := by
  induction order generalizing cloud with
  | nil =>
    cases h
    exact hedited.resolve_left List.not_mem_nil
  | cons party order ih =>
    obtain ⟨middle, hdoes, hrest⟩ := h
    apply ih hrest
    by_cases hparty : party = editor
    · rw [hparty, heditor] at hdoes
      cases hdoes
      exact Or.inr (congrArg List.length (Function.update_self ..))
    · rw [hothers party hparty] at hdoes
      obtain ⟨calls, hpossible, rfl⟩ := hdoes
      rw [length_tick hpossible]
      exact hedited.imp_left fun hmem => (List.mem_cons.mp hmem).resolve_left (Ne.symm hparty)

end solution_library.route_switcher_v2
