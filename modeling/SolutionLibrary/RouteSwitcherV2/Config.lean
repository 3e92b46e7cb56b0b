import SolutionLibrary.Library.Finmap
import SolutionLibrary.LoadBalancer

namespace solution_library.route_switcher_v2

/-- The `next_hop` oneof of a static route. Only an address is a key
`nextHopAddress` in the JSON of the route. -/
inductive NextHop where
  | next_hop_address (address : String)
  | gateway_id (id : String)
  deriving DecidableEq

structure StaticRoute where
  destinationPrefix : String
  nextHop : Option NextHop
  labels : List (String × String)
  deriving DecidableEq

def StaticRoute.nextHopAddress (route : StaticRoute) : Option String :=
  match route.nextHop with
  | some (.next_hop_address address) => some address
  | _ => none

/-- `ip_route.update({'nextHopAddress': address})`. -/
def StaticRoute.update (route : StaticRoute) (address : String) : StaticRoute :=
  { route with nextHop := some (.next_hop_address address) }

/-- Stored primary next hops of one route table, keyed by prefix. -/
abbrev Routes := Finmap fun _ : String => String

structure ConfigRouteTable where
  route_table_id : String
  routes : Option Routes
  deriving DecidableEq

structure Interface where
  own_ip : Option String
  backup_peer_ip : Option String
  deriving DecidableEq

structure Router where
  healthchecked_ip : Option String
  interfaces : Option (List Interface)
  deriving DecidableEq

/-- The YAML configuration in the bucket. An absent key and an explicit null
have the same effect for `route_tables` and `routers`, and both are `none`. -/
structure Config where
  loadBalancerId : String
  targetGroupId : String
  route_tables : Option (List ConfigRouteTable)
  routers : Option (List Router)
  deriving DecidableEq

/-- `key in d and d[key]` for a string: absent, null and empty values are all
refused. -/
def present (value : Option String) : Option String :=
  value.filter fun text => text ≠ ""

/-- The body of an error answer. `r.json().get('message')` raises unless the
body is a JSON object. -/
inductive ErrorBody where
  | object
  | other
  deriving DecidableEq

/-- Outcome of one API request: an exception of `requests`, a status code other
than 200, or 200 with a body. -/
inductive Answer (α : Type) where
  | failed
  | refused (body : ErrorBody)
  | ok (body : α)
  deriving DecidableEq

def Answer.map {α γ : Type} (f : α → γ) : Answer α → Answer γ
  | .failed => .failed
  | .refused body => .refused body
  | .ok body => .ok (f body)

/-- Python exceptions that end the invocation. -/
inductive Exn where
  | keyError (key : String)
  | errorBody
  deriving DecidableEq

@[simp] theorem StaticRoute.nextHopAddress_update (route : StaticRoute) (address : String) :
    (route.update address).nextHopAddress = some address := rfl

@[simp] theorem StaticRoute.update_update (route : StaticRoute) (first second : String) :
    (route.update first).update second = route.update second := rfl

/-- A route is determined by its address once the other fields agree. -/
theorem StaticRoute.nextHop_eq {route : StaticRoute} {address : String}
    (h : route.nextHopAddress = some address) : route.nextHop = some (.next_hop_address address) := by
  unfold StaticRoute.nextHopAddress at h
  split at h
  · next hhop => simpa [hhop] using h
  · cases h

theorem StaticRoute.update_self {route : StaticRoute} {address : String}
    (h : route.nextHopAddress = some address) : route.update address = route := by
  rw [StaticRoute.update, ← route.nextHop_eq h]

theorem present_eq_some {value : Option String} {text : String} :
    present value = some text ↔ value = some text ∧ text ≠ "" := by
  simp [present, Option.filter_eq_some_iff]

end solution_library.route_switcher_v2
