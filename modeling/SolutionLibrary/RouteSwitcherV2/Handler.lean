import Mathlib.Data.List.Sort
import SolutionLibrary.RouteSwitcherV2.Routes

namespace solution_library.route_switcher_v2

/-- An element of `all_routeTables`: the argument of `failover` and with it the
body of one PATCH request. -/
structure RouteTable where
  route_table_id : String
  next_hop : String
  routes : List StaticRoute
  deriving DecidableEq

/-- `sorted(routeTable, key=lambda i: i['destinationPrefix'])`, a stable sort. -/
def sort_routes (routeTable : List StaticRoute) : List StaticRoute :=
  routeTable.insertionSort fun first second => first.destinationPrefix ≤ second.destinationPrefix

/-- Deletes the stored prefixes that the loop has not seen, but only when the
two sets differ in size. -/
def prune (routeTable_prefixes : Finset String) (routes : Routes) : Routes :=
  if routes.keys.card ≠ routeTable_prefixes.card then
    finmap.eraseAll routes (routes.keys \ routeTable_prefixes)
  else routes

/-- What one pass of the loop over `config['route_tables']` leaves behind: the
configuration entry, the request appended to `all_routeTables` if any, and the
contribution to `config_changed`. -/
structure CheckedTable where
  config_route_table : ConfigRouteTable
  modified : Option RouteTable
  config_changed : Bool
  deriving DecidableEq

def CheckedTable.skip (config_route_table : ConfigRouteTable) : CheckedTable :=
  ⟨config_route_table, none, false⟩

def check_route_table (back_to_primary : Bool) (hops : NextHops)
    (answer : Answer (Option (List StaticRoute))) (config_route_table : ConfigRouteTable) :
    Except Exn CheckedTable :=
  match answer with
  | .failed => .ok (.skip config_route_table)
  | .refused .object => .ok (.skip config_route_table)
  | .refused .other => .error .errorBody
  | .ok none => .ok (.skip config_route_table)
  | .ok (some []) => .ok (.skip config_route_table)
  | .ok (some (first :: rest)) => do
    let (routes, loop) ← check_routes back_to_primary hops (first :: rest)
      { routes := config_route_table.routes, routeTable_prefixes := ∅,
        routeTable_changes := none, config_changed := false }
    .ok {
      config_route_table := { config_route_table with routes := loop.routes.map (prune loop.routeTable_prefixes) }
      modified := loop.routeTable_changes.map fun next_hop =>
        { route_table_id := config_route_table.route_table_id, next_hop, routes := sort_routes routes }
      config_changed := loop.config_changed ||
        loop.routes.any fun routes => routes.keys.card ≠ loop.routeTable_prefixes.card }

/-- The first part of `check_router_statuses`, up to the loop over the route
tables. `none` is an early return. -/
def check_targets (config : Config) (targetStates : Answer (Option (List TargetState))) :
    Except Exn (Option NextHops) :=
  match targetStates with
  | .failed => .ok none
  | .refused .object => .ok none
  | .refused .other => .error .errorBody
  | .ok none => .ok none
  | .ok (some targets) =>
    if targets.length < 2 then .ok none
    else if ∀ address ∈ (targetStatus targets).keys, (targetStatus targets).lookup address ≠ some .HEALTHY then
      .ok none
    else .ok (config.routers.map (nexthops (targetStatus targets)))

/-- The requests that `check_router_statuses` issues: one `failover` for each
modified table, then at most one `put_config`. -/
structure Effects where
  all_routeTables : List RouteTable
  put_config : Option Config
  deriving DecidableEq

def Effects.nothing : Effects := ⟨[], none⟩

/-- The answer to the GET of a route table depends on the position of the
table in the configuration and on its id. -/
def check_router_statuses (back_to_primary : Bool) (config : Config)
    (targetStates : Answer (Option (List TargetState)))
    (routeTables : ℕ → String → Answer (Option (List StaticRoute))) : Except Exn Effects := do
  match ← check_targets config targetStates, config.route_tables with
  | some hops, some route_tables =>
    let checked ← route_tables.zipIdx.mapM fun (config_route_table, i) =>
      check_route_table back_to_primary hops (routeTables i config_route_table.route_table_id) config_route_table
    .ok {
      all_routeTables := checked.filterMap CheckedTable.modified
      put_config :=
        if checked.any CheckedTable.config_changed then
          some { config with route_tables := some (checked.map CheckedTable.config_route_table) }
        else none }
  | _, _ => .ok .nothing

/-- The shared state: the live route tables and the stored configuration. -/
@[ext] structure Cloud where
  tables : String → List StaticRoute
  config : Config

/-- Outcomes of the API calls of one invocation. `routeTables i` tells whether
the `i`-th GET of a route table returns its live routes. `failover` lists the
PATCH requests that take effect, in the order in which they do. -/
structure Calls where
  get_config : Bool
  targetStates : Answer (Option (List TargetState))
  routeTables : ℕ → Answer Unit
  failover : List RouteTable
  put_config : Bool

/-- The requests of one invocation of `handler`. An exception ends it before
the first PATCH. -/
def handler (back_to_primary : Bool) (cloud : Cloud) (calls : Calls) : Effects :=
  if calls.get_config then
    match check_router_statuses back_to_primary cloud.config calls.targetStates
      fun i id => (calls.routeTables i).map fun _ => some (cloud.tables id) with
    | .ok effects => effects
    | .error _ => .nothing
  else .nothing

/-- A PATCH that takes effect replaces the whole list of routes. -/
def patch (tables : String → List StaticRoute) (table : RouteTable) : String → List StaticRoute :=
  Function.update tables table.route_table_id table.routes

/-- The shared state after one invocation. -/
def tick (back_to_primary : Bool) (cloud : Cloud) (calls : Calls) : Cloud :=
  { tables := calls.failover.foldl patch cloud.tables
    config :=
      if calls.put_config then ((handler back_to_primary cloud calls).put_config).getD cloud.config
      else cloud.config }

/-- The PATCH requests that take effect are among those issued. The thread pool
runs them in any order. -/
def Calls.Possible (back_to_primary : Bool) (cloud : Cloud) (calls : Calls) : Prop :=
  calls.failover.Subperm (handler back_to_primary cloud calls).all_routeTables

/-- Every API call of the invocation succeeds. -/
structure Calls.Successful (back_to_primary : Bool) (cloud : Cloud) (calls : Calls) : Prop where
  get_config : calls.get_config = true
  targetStates : ∃ targets, calls.targetStates = .ok targets
  routeTables : ∀ i, calls.routeTables i = .ok ()
  failover : calls.failover.Perm (handler back_to_primary cloud calls).all_routeTables
  put_config : calls.put_config = true

end solution_library.route_switcher_v2
