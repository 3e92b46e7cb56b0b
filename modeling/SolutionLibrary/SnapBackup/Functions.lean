import Mathlib.Algebra.Ring.Int.Defs
import Mathlib.Algebra.Ring.Nat
import SolutionLibrary.Library.Decimal

namespace solution_library.snap_backup

open text decimal

/-- A point of time, in nanoseconds since the epoch. -/
abbrev Time := ℕ

/-- `time.Time.Unix`. -/
def Unix (t : Time) : ℤ :=
  ((t / 1000000000 : ℕ) : ℤ)

abbrev Labels := List (String × Text)

structure Disk where
  Id : String
  labels : Option Labels
  deriving DecidableEq

structure Snapshot where
  Id : String
  labels : Option Labels
  deriving DecidableEq

/-- The body of a message. -/
structure CreateSnapshotParams where
  FolderId : String
  DiskId : String
  deriving DecidableEq

structure Response where
  StatusCode : ℕ
  Body : String
  deriving DecidableEq

structure CreateSnapshotRequest where
  FolderId : String
  DiskId : String
  Labels : Labels
  deriving DecidableEq

/-- `int` has 64 bits. -/
def int (n : ℤ) : ℤ :=
  n.bmod (2 ^ 64)

def isInt (n : ℤ) : Bool :=
  -2 ^ 63 ≤ n && n < 2 ^ 63

def Itoa (n : ℤ) : Text :=
  render n

/-- `strconv.Atoi` fails for what is not an integer and for what is not an `int`. -/
def Atoi (text : Text) : Option ℤ :=
  (read text).filter isInt

/-- Is the disk to be backed up? -/
def selected (mode : String) (d : Disk) : Bool :=
  let onlyMarked := mode = "only-marked"
  let ok :=
    match d.labels with
    | none => false
    | some labels => (labels.lookup "snapshot").isSome
  !(onlyMarked && !ok)

def constructDiskMessage (folderId : String) (d : Disk) : CreateSnapshotParams :=
  ⟨folderId, d.Id⟩

/-- The operation that creates a snapshot: whether it has ended when the answer comes, and how it ends. -/
structure Operation where
  snapshotId : String
  done : Bool
  succeeds : Bool
  message : String
  deriving DecidableEq

/-- `Operation.Error`, which knows of no error before the end. -/
def Operation.Error (op : Operation) : Option String :=
  if op.done && !op.succeeds then some op.message else none

/-- What becomes of a request for a snapshot: no operation, an operation without an answer, or both. -/
inductive Create where
  | refused
  | lost (op : Operation)
  | started (op : Operation)
  deriving DecidableEq

/-- The operation that a request has started. -/
def Create.operation : Create → Option Operation
  | refused => none
  | lost op => some op
  | started op => some op

/-- What a run of `SnapshotHandler` meets. -/
structure SnapshotCalls where
  build : Bool
  now : Time
  unmarshal : Bool
  create : Create
  metadata : Bool
  deriving DecidableEq

/-- When a snapshot may be deleted. -/
def expirationTs (now : Time) (ttl : ℤ) : ℤ :=
  int (int (Unix now) + ttl)

def createRequest (params : CreateSnapshotParams) (now : Time) (ttl : ℤ) : CreateSnapshotRequest :=
  ⟨params.FolderId, params.DiskId, [("expiration_ts", Itoa (expirationTs now ttl))]⟩

/-- The request that a run sends, and its response unless it returns an error. -/
def SnapshotHandler (TTL : Text) (calls : SnapshotCalls) (params : CreateSnapshotParams) :
    Option CreateSnapshotRequest × Option Response :=
  if !calls.build then (none, none)
  else
    match Atoi TTL with
    | none => (none, none)
    | some ttl =>
      if !calls.unmarshal then (none, none)
      else
        match calls.create with
        | .refused => (some (createRequest params calls.now ttl), none)
        | .lost _ => (some (createRequest params calls.now ttl), none)
        | .started snapshotOp =>
          match snapshotOp.Error with
          | some opErr =>
            (some (createRequest params calls.now ttl), some ⟨200, "Failed to create snapshot: " ++ opErr⟩)
          | none =>
            if !calls.metadata then (some (createRequest params calls.now ttl), none)
            else (some (createRequest params calls.now ttl),
              some ⟨200, "Created snapshot " ++ snapshotOp.snapshotId ++ " from disk " ++ params.DiskId⟩)

/-- A snapshot that the iterator of `DeleteHandler` yields, with what the run meets at it. -/
structure Yield where
  snapshot : Snapshot
  now : Time
  delete : Bool
  metadata : Bool

/-- The label says that the time has come. -/
def expired (now : Time) (labels : Option Labels) : Bool :=
  match labels with
  | none => false
  | some labels =>
    match labels.lookup "expiration_ts" with
    | none => false
    | some expirationTsVal =>
      match Atoi expirationTsVal with
      | none => false
      | some expirationTs => expirationTs < int (Unix now)

/-- What `DeleteHandler` does: the yields for which it sends a request, the ids it lists, its response. -/
structure Deletions where
  requests : List Yield
  deletedIds : List String
  response : Option Response

/-- The loop of `DeleteHandler` over what its iterator yields. The end of the listing and a listing error look
alike. -/
def deleteLoop (deletedIds : List String) : List Yield → Deletions
  | [] => ⟨[], deletedIds, some ⟨200, "Deleted expired snapshots: " ++ ", ".intercalate deletedIds⟩⟩
  | y :: rest =>
    if expired y.now y.snapshot.labels then
      if !y.delete || !y.metadata then ⟨[y], deletedIds, none⟩
      else
        let others := deleteLoop (deletedIds ++ [y.snapshot.Id]) rest
        { others with requests := y :: others.requests }
    else deleteLoop deletedIds rest

def DeleteHandler (build : Bool) (yields : List Yield) : Deletions :=
  if build then deleteLoop [] yields else ⟨[], [], none⟩

theorem Atoi_Itoa {n : ℤ} (h : isInt n = true) : Atoi (Itoa n) = some n := by
  rw [Atoi, Itoa, read_render, Option.filter_some, if_pos h]

theorem isInt_iff {n : ℤ} : isInt n = true ↔ -2 ^ 63 ≤ n ∧ n < 2 ^ 63 := by
  simp [isInt]

theorem isInt_int (n : ℤ) : isInt (int n) = true := by
  rw [isInt_iff, int]
  have hlower := Int.le_bmod (x := n) (m := 2 ^ 64) (by decide)
  have hupper := Int.bmod_lt (x := n) (m := 2 ^ 64) (by decide)
  omega

theorem int_eq_self {n : ℤ} (h : isInt n = true) : int n = n := by
  rw [isInt_iff] at h
  rw [int, Int.bmod_eq_of_le (by omega) (by omega)]

end solution_library.snap_backup
