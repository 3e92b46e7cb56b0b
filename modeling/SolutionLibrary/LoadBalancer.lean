namespace solution_library

/-- Status of a load balancer target, the `TargetState.Status` of the API. -/
inductive TargetStatus where
  | STATUS_UNSPECIFIED
  | INITIAL
  | HEALTHY
  | UNHEALTHY
  | DRAINING
  | INACTIVE
  deriving DecidableEq

structure TargetState where
  address : String
  status : TargetStatus
  deriving DecidableEq

end solution_library
