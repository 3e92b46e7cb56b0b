import SolutionLibrary.Library.Invariant
import SolutionLibrary.SnapBackup.Functions

namespace solution_library.snap_backup

open invariant text

section deleteLoop

variable {y : Yield} {yields rest : List Yield} {deletedIds : List String}

/-- One of the calls for a yielded snapshot fails. -/
def Yield.fails (y : Yield) : Bool :=
  expired y.now y.snapshot.labels && (!y.delete || !y.metadata)

theorem requests_cons (y : Yield) (rest : List Yield) (deletedIds : List String) :
    ∃ deletedIds', (deleteLoop deletedIds (y :: rest)).requests =
      (if expired y.now y.snapshot.labels then [y] else []) ++
        if y.fails then [] else (deleteLoop deletedIds' rest).requests := by
  cases hexpired : expired y.now y.snapshot.labels with
  | false => exact ⟨deletedIds, by simp [deleteLoop, Yield.fails, hexpired]⟩
  | true =>
    cases hcalls : !y.delete || !y.metadata with
    | false => exact ⟨deletedIds ++ [y.snapshot.Id], by simp [deleteLoop, Yield.fails, hexpired, hcalls]⟩
    | true => exact ⟨deletedIds, by simp [deleteLoop, Yield.fails, hexpired, hcalls]⟩

/-- A run asks for the deletion of the expired snapshots up to the first failing call. -/
theorem mem_requests (before rest : List Yield) (hbefore : ∀ z ∈ before, z.fails = false)
    (hexpired : expired y.now y.snapshot.labels = true) :
    y ∈ (deleteLoop deletedIds (before ++ y :: rest)).requests := by
  induction before generalizing deletedIds with
  | nil =>
    obtain ⟨deletedIds', hrequests⟩ := requests_cons y rest deletedIds
    rw [List.nil_append, hrequests, if_pos hexpired]
    exact List.mem_append_left _ (List.mem_singleton_self y)
  | cons z before ih =>
    obtain ⟨hz, hbefore⟩ := List.forall_mem_cons.mp hbefore
    obtain ⟨deletedIds', hrequests⟩ := requests_cons z (before ++ y :: rest) deletedIds
    rw [List.cons_append, hrequests, hz, if_neg Bool.false_ne_true]
    exact List.mem_append_right _ (ih hbefore)

theorem expired_of_mem_requests (h : y ∈ (deleteLoop deletedIds yields).requests) :
    expired y.now y.snapshot.labels = true := by
  induction yields generalizing deletedIds with
  | nil => cases h
  | cons z rest ih =>
    obtain ⟨deletedIds', hrequests⟩ := requests_cons z rest deletedIds
    rw [hrequests] at h
    obtain h | h := List.mem_append.mp h
    · split_ifs at h with hexpired
      · rwa [List.mem_singleton.mp h]
      · cases h
    · split_ifs at h
      · cases h
      · exact ih h

end deleteLoop

/-- The snapshots that a run of `DeleteHandler` deletes: the service has accepted the request. -/
def Deletions.deleted (deletions : Deletions) : List Yield :=
  deletions.requests.filter fun y => y.delete

/-- A snapshot that a run of `SnapshotHandler` has created, with the start of the run and its `TTL`. -/
structure Origin where
  Id : String
  start : Time
  ttl : ℤ
  deriving DecidableEq

/-- The clock, all that a listing of the folder has shown or may still show, the snapshots of `SnapshotHandler`, and
the requests for deletions with their times. -/
structure Folder where
  clock : Time
  listed : List Snapshot
  origins : List Origin
  deletions : List (Snapshot × Time)
  deriving DecidableEq

/-- Time passes, a run of `SnapshotHandler` makes its request, somebody creates or changes another snapshot, or the
iterator of a run of `DeleteHandler` yields a snapshot. -/
inductive Event where
  | tick (duration : ℕ)
  | create (start : Time) (TTL : Text) (calls : SnapshotCalls) (params : CreateSnapshotParams)
  | foreign (snapshot : Snapshot)
  | yield (y : Yield)

/-- The snapshot that a run creates, with its origin. -/
def createdSnapshot (start : Time) (TTL : Text) (calls : SnapshotCalls) (params : CreateSnapshotParams) :
    Option (Snapshot × Origin) := do
  let request ← (SnapshotHandler TTL calls params).1
  let op ← calls.create.operation
  let ttl ← Atoi TTL
  return (⟨op.snapshotId, some request.Labels⟩, ⟨op.snapshotId, start, ttl⟩)

def occur (f : Folder) : Event → Folder
  | .tick duration => { f with clock := f.clock + duration }
  | .create start TTL calls params =>
    match createdSnapshot start TTL calls params with
    | none => f
    | some (snapshot, origin) =>
      -- the time is read during the run, and the service gives a new id
      if start ≤ calls.now ∧ calls.now ≤ f.clock ∧ snapshot.Id ∉ f.listed.map Snapshot.Id then
        { f with listed := snapshot :: f.listed, origins := origin :: f.origins }
      else f
  | .foreign snapshot =>
    -- nobody changes the labels of a created snapshot
    if snapshot.Id ∉ f.origins.map Origin.Id then { f with listed := snapshot :: f.listed } else f
  | .yield y =>
    if y.snapshot ∈ f.listed ∧ y.now ≤ f.clock then
      { f with deletions := (DeleteHandler true [y]).requests.map (fun z => (z.snapshot, f.clock)) ++ f.deletions }
    else f

/-- More than the time to live has passed since the start of the run. -/
def Origin.Outlived (origin : Origin) (t : Time) : Prop :=
  (origin.start : ℤ) + origin.ttl * 1000000000 < t

instance (origin : Origin) (t : Time) : Decidable (origin.Outlived t) :=
  inferInstanceAs (Decidable ((origin.start : ℤ) + origin.ttl * 1000000000 < t))

/-- The label of the snapshot is an integer. -/
def Snapshot.HasExpiration (snapshot : Snapshot) : Prop :=
  ∃ labels value n, snapshot.labels = some labels ∧ labels.lookup "expiration_ts" = some value ∧ Atoi value = some n

/-- The time of a run that asks for a snapshot and its `TTL` add up to an `int`. -/
def NoOverflow (_ : Folder) : Event → Prop
  | .create _ TTL calls params => (SnapshotHandler TTL calls params).1 ≠ none →
      ∀ ttl, Atoi TTL = some ttl → Unix calls.now + ttl < 2 ^ 63
  | _ => True

section expired

variable {now : Time}

theorem expired_iff {labels : Option Labels} : expired now labels = true ↔ ∃ l value n,
    labels = some l ∧ l.lookup "expiration_ts" = some value ∧ Atoi value = some n ∧ n < int (Unix now) := by
  unfold expired
  split
  · next => simp
  · next l =>
    split
    · next hlookup => simp [hlookup]
    · next value hlookup =>
      split
      · next hatoi => simp [hlookup, hatoi]
      · next n hatoi => simp [hlookup, hatoi]

theorem hasExpiration_of_expired {snapshot : Snapshot} (h : expired now snapshot.labels = true) :
    snapshot.HasExpiration := by
  obtain ⟨labels, value, n, hlabels, hlookup, hatoi, -⟩ := expired_iff.mp h
  exact ⟨labels, value, n, hlabels, hlookup, hatoi⟩

theorem expired_request {n : ℤ} (hn : isInt n = true) :
    expired now (some [("expiration_ts", Itoa n)]) = true ↔ n < int (Unix now) := by
  rw [expired_iff]
  constructor
  · rintro ⟨labels, value, m, hlabels, hlookup, hatoi, hlt⟩
    cases hlabels
    obtain rfl : value = Itoa n := (Option.some.inj hlookup).symm
    rw [Atoi_Itoa hn] at hatoi
    rwa [Option.some.inj hatoi]
  · intro hlt
    exact ⟨_, Itoa n, n, rfl, rfl, Atoi_Itoa hn, hlt⟩

theorem int_Unix_le (now : Time) : int (Unix now) ≤ Unix now := by
  have hnonneg : 0 ≤ Unix now := Int.natCast_nonneg _
  have hmodulus : ((2 ^ 64 : ℕ) : ℤ) = 18446744073709551616 := rfl
  rw [int, Int.bmod_def, hmodulus]
  split_ifs
  · omega
  · omega

/-- The sum in the label is the sum of the time and the time to live. -/
theorem expirationTs_eq {ttl : ℤ} (h : isInt (Unix now + ttl) = true) : expirationTs now ttl = Unix now + ttl := by
  have hsum : int (int (Unix now) + ttl) = int (Unix now + ttl) := Int.bmod_add_bmod ..
  rw [expirationTs, hsum, int_eq_self h]

theorem isInt_of_Atoi {text : Text} {n : ℤ} (h : Atoi text = some n) : isInt n = true := by
  rw [Atoi, Option.filter_eq_some_iff] at h
  exact h.2

theorem outlived_of_expired {origin : Origin} {later clock : Time} (hstart : origin.start ≤ now)
    (hint : isInt (Unix now + origin.ttl) = true) (hclock : later ≤ clock)
    (h : expired later (some [("expiration_ts", Itoa (Unix now + origin.ttl))]) = true) : origin.Outlived clock := by
  have hlt : Unix now + origin.ttl < int (Unix later) := (expired_request hint).mp h
  have hle : int (Unix later) ≤ Unix later := int_Unix_le later
  have hstart : (origin.start : ℤ) ≤ now := Int.ofNat_le.mpr hstart
  have hclock : (later : ℤ) ≤ clock := Int.ofNat_le.mpr hclock
  rw [Origin.Outlived]
  unfold Unix at hlt hle
  omega

/-- A sum that is no `int` wraps around to a negative one, and the snapshot is expired from the start. -/
theorem expired_of_overflow {ttl : ℤ} {later : Time} (hnow : isInt (Unix now) = true)
    (hlater : isInt (Unix later) = true) (httl : isInt ttl = true) (h : 2 ^ 63 ≤ Unix now + ttl) :
    expired later (some [("expiration_ts", Itoa (expirationTs now ttl))]) = true := by
  have hmodulus : ((2 ^ 64 : ℕ) : ℤ) = 18446744073709551616 := rfl
  have hnonneg : 0 ≤ Unix later := Int.natCast_nonneg _
  rw [isInt_iff] at hnow httl
  rw [expirationTs, expired_request (isInt_int _), int_eq_self hlater, int_eq_self (isInt_iff.mpr hnow), int,
    Int.bmod_def, hmodulus]
  split_ifs
  · omega
  · omega

end expired

/-- The labels of the created snapshots say when they may be deleted, and no deletion was premature. -/
structure Kept (f : Folder) : Prop where
  origins : ∀ origin ∈ f.origins, origin.Id ∈ f.listed.map Snapshot.Id
  labels : ∀ origin ∈ f.origins, ∀ snapshot ∈ f.listed, snapshot.Id = origin.Id → ∃ now,
    origin.start ≤ now ∧ isInt (Unix now + origin.ttl) = true ∧
      snapshot.labels = some [("expiration_ts", Itoa (Unix now + origin.ttl))]
  listed : ∀ deletion ∈ f.deletions, deletion.1 ∈ f.listed
  expiration : ∀ deletion ∈ f.deletions, deletion.1.HasExpiration
  outlived : ∀ deletion ∈ f.deletions, ∀ origin ∈ f.origins, origin.Id = deletion.1.Id → origin.Outlived deletion.2

section created

variable {start : Time} {TTL : Text} {calls : SnapshotCalls} {params : CreateSnapshotParams}

/-- The request of a run, if it sends one. -/
theorem SnapshotHandler_request {request : CreateSnapshotRequest}
    (h : (SnapshotHandler TTL calls params).1 = some request) :
    ∃ ttl, Atoi TTL = some ttl ∧ request = createRequest params calls.now ttl := by
  cases hbuild : calls.build with
  | false => simp [SnapshotHandler, hbuild] at h
  | true =>
    cases hatoi : Atoi TTL with
    | none => simp [SnapshotHandler, hbuild, hatoi] at h
    | some ttl =>
      cases hunmarshal : calls.unmarshal with
      | false => simp [SnapshotHandler, hbuild, hatoi, hunmarshal] at h
      | true =>
        simp only [SnapshotHandler, hbuild, hatoi, hunmarshal, Bool.not_true, Bool.false_eq_true, if_false] at h
        refine ⟨ttl, rfl, ?_⟩
        split at h
        · exact (Option.some.inj h).symm
        · exact (Option.some.inj h).symm
        · split at h
          · exact (Option.some.inj h).symm
          · split_ifs at h
            · exact (Option.some.inj h).symm
            · exact (Option.some.inj h).symm

theorem createdSnapshot_eq_some {snapshot : Snapshot} {origin : Origin}
    (h : createdSnapshot start TTL calls params = some (snapshot, origin)) :
    (SnapshotHandler TTL calls params).1 ≠ none ∧ ∃ ttl, Atoi TTL = some ttl ∧ origin = ⟨snapshot.Id, start, ttl⟩ ∧
      snapshot.labels = some [("expiration_ts", Itoa (expirationTs calls.now ttl))] := by
  simp only [createdSnapshot, Option.bind_eq_bind, Option.bind_eq_some_iff, Option.pure_def, Option.some.injEq,
    Prod.mk.injEq] at h
  obtain ⟨request, hrequest, op, -, ttl, hatoi, rfl, rfl⟩ := h
  have hsent : (SnapshotHandler TTL calls params).1 ≠ none := by simp [hrequest]
  obtain ⟨ttl', hatoi', rfl⟩ := SnapshotHandler_request hrequest
  obtain rfl : ttl' = ttl := Option.some.inj (hatoi'.symm.trans hatoi)
  exact ⟨hsent, ttl', hatoi, rfl, rfl⟩

end created

section occur

variable {f : Folder}

theorem requests_singleton {y : Yield} : (DeleteHandler true [y]).requests ⊆ [y] := by
  obtain ⟨deletedIds, hrequests⟩ := requests_cons y [] []
  rw [DeleteHandler, if_pos rfl, hrequests]
  split_ifs
  · exact List.Subset.refl _
  · exact List.Subset.refl _
  · exact List.nil_subset _
  · exact List.nil_subset _

/-- A created snapshot has a new id, which no deletion names. -/
theorem Kept.create (h : Kept f) {snapshot : Snapshot} {origin : Origin} (hid : origin.Id = snapshot.Id)
    (hlabels : ∃ now, origin.start ≤ now ∧ isInt (Unix now + origin.ttl) = true ∧
      snapshot.labels = some [("expiration_ts", Itoa (Unix now + origin.ttl))])
    (hnew : snapshot.Id ∉ f.listed.map Snapshot.Id) :
    Kept { f with listed := snapshot :: f.listed, origins := origin :: f.origins } where
  origins := by
    refine List.forall_mem_cons.mpr ⟨?_, fun o ho => List.mem_cons_of_mem _ (h.origins o ho)⟩
    exact List.mem_map.mpr ⟨snapshot, List.mem_cons_self, hid.symm⟩
  labels := by
    rw [List.forall_mem_cons]
    constructor
    · rw [List.forall_mem_cons]
      refine ⟨fun _ => hlabels, fun other hother heq => ?_⟩
      exact absurd (List.mem_map.mpr ⟨other, hother, heq.trans hid⟩) hnew
    · intro o ho
      rw [List.forall_mem_cons]
      exact ⟨fun heq => absurd (heq ▸ h.origins o ho) hnew, h.labels o ho⟩
  listed deletion hdeletion := List.mem_cons_of_mem _ (h.listed deletion hdeletion)
  expiration := h.expiration
  outlived deletion hdeletion := by
    rw [List.forall_mem_cons]
    refine ⟨fun heq => ?_, h.outlived deletion hdeletion⟩
    exact absurd (List.mem_map.mpr ⟨deletion.1, h.listed deletion hdeletion, heq.symm.trans hid⟩) hnew

theorem Kept.occur (h : Kept f) {event : Event} (hevent : NoOverflow f event) : Kept (occur f event) := by
  cases event with
  | tick duration => exact ⟨h.origins, h.labels, h.listed, h.expiration, h.outlived⟩
  | create start TTL calls params =>
    rw [snap_backup.occur]
    split
    · exact h
    · next snapshot origin hcreated =>
      split_ifs with hguard
      · obtain ⟨hsent, ttl, hatoi, rfl, hlabels⟩ := createdSnapshot_eq_some hcreated
        have hint : isInt (Unix calls.now + ttl) = true := by
          have hlower := (isInt_iff.mp (isInt_of_Atoi hatoi)).1
          have hnonneg : 0 ≤ Unix calls.now := Int.natCast_nonneg _
          exact isInt_iff.mpr ⟨by omega, hevent hsent ttl hatoi⟩
        rw [expirationTs_eq hint] at hlabels
        exact h.create rfl ⟨calls.now, hguard.1, hint, hlabels⟩ hguard.2.2
      · exact h
  | foreign snapshot =>
    rw [snap_backup.occur]
    split_ifs with hforeign
    · exact h
    · refine ⟨fun origin horigin => List.mem_cons_of_mem _ (h.origins origin horigin), fun origin horigin => ?_,
        fun deletion hdeletion => List.mem_cons_of_mem _ (h.listed deletion hdeletion), h.expiration, h.outlived⟩
      rw [List.forall_mem_cons]
      exact ⟨fun heq => absurd (List.mem_map.mpr ⟨origin, horigin, heq.symm⟩) hforeign, h.labels origin horigin⟩
  | yield y =>
    rw [snap_backup.occur]
    split_ifs with hguard
    · have hdeletions (property : Snapshot × Time → Prop) (hnew : expired y.now y.snapshot.labels = true →
          property (y.snapshot, f.clock)) (hold : ∀ deletion ∈ f.deletions, property deletion) :
          ∀ deletion ∈ (DeleteHandler true [y]).requests.map (fun z => (z.snapshot, f.clock)) ++ f.deletions,
            property deletion := by
        refine List.forall_mem_append.mpr ⟨List.forall_mem_map.mpr fun z hz => ?_, hold⟩
        obtain rfl : z = y := List.mem_singleton.mp (requests_singleton hz)
        exact hnew (expired_of_mem_requests hz)
      refine ⟨h.origins, h.labels, hdeletions _ (fun _ => hguard.1) h.listed,
        hdeletions _ (fun hexpired => hasExpiration_of_expired hexpired) h.expiration, ?_⟩
      refine hdeletions _ (fun hexpired origin horigin heq => ?_) h.outlived
      obtain ⟨now, hstart, hint, hlabels⟩ := h.labels origin horigin y.snapshot hguard.1 heq.symm
      rw [hlabels] at hexpired
      exact outlived_of_expired hstart hint hguard.2 hexpired
    · exact h

end occur

def emptyFolder (clock : Time) : Folder :=
  ⟨clock, [], [], []⟩

theorem kept_emptyFolder (clock : Time) : Kept (emptyFolder clock) where
  origins _ h := absurd h List.not_mem_nil
  labels _ h := absurd h List.not_mem_nil
  listed _ h := absurd h List.not_mem_nil
  expiration _ h := absurd h List.not_mem_nil
  outlived _ h := absurd h List.not_mem_nil

/-- No snapshot is deleted that has no integer label, or too early after the run that created it. -/
def NotPremature (f : Folder) : Prop :=
  ∀ deletion ∈ f.deletions, deletion.1.HasExpiration ∧
    ∀ origin ∈ f.origins, origin.Id = deletion.1.Id → origin.Outlived deletion.2

/-- Where no sum in a label overflows, no deletion is premature; and always, each expired snapshot that is yielded
before the first failing call is deleted. -/
theorem deletions_in_time (clock : Time) (events : List Event) (h : Along occur NoOverflow (emptyFolder clock) events) :
    NotPremature (events.foldl occur (emptyFolder clock)) ∧
      ∀ before y after, (∀ z ∈ before, z.fails = false) → expired y.now y.snapshot.labels = true → y.delete = true →
        y ∈ (DeleteHandler true (before ++ y :: after)).deleted := by
  constructor
  · have hkept : Kept (events.foldl occur (emptyFolder clock)) :=
      (h.keeps (fun f event hkept hevent => hkept.occur hevent) (kept_emptyFolder clock)).1
    exact fun deletion hdeletion => ⟨hkept.expiration deletion hdeletion, hkept.outlived deletion hdeletion⟩
  · intro before y after hbefore hexpired hdelete
    rw [Deletions.deleted, DeleteHandler, if_pos rfl, List.mem_filter]
    exact ⟨mem_requests before after hbefore hexpired, hdelete⟩

/-- 2023-01-01. -/
def newYear : Time := 1672531200000000000

/-- A run of `SnapshotHandler`, and the yield of its snapshot a given time later. -/
def backupEvents (ttl : ℤ) (delay : Time) : List Event :=
  [.create newYear (Itoa ttl) ⟨true, newYear, true, .started ⟨"fd8", true, true, ""⟩, true⟩ ⟨"b1g", "epd"⟩,
    .tick delay,
    .yield ⟨⟨"fd8", some [("expiration_ts", Itoa (expirationTs newYear ttl))]⟩, newYear + delay, true, true⟩]

/-- A week and a second after the run, with the default time to live. -/
theorem deletions_in_time_week :
    NotPremature ((backupEvents 604800 604801000000000).foldl occur (emptyFolder newYear)) ∧
      ∀ before y after, (∀ z ∈ before, z.fails = false) → expired y.now y.snapshot.labels = true → y.delete = true →
        y ∈ (DeleteHandler true (before ++ y :: after)).deleted := by
  refine deletions_in_time newYear (backupEvents 604800 604801000000000)
    ⟨fun _ ttl httl => ?_, trivial, trivial, trivial⟩
  obtain rfl : ttl = 604800 := Option.some.inj (httl.symm.trans (Atoi_Itoa rfl))
  decide

/-- With the greatest time to live the sum is negative, and the snapshot is deleted at once. -/
theorem greatest_ttl_premature :
    ¬ NotPremature ((backupEvents (2 ^ 63 - 1) 0).foldl occur (emptyFolder newYear)) := by
  have hfinal : (backupEvents (2 ^ 63 - 1) 0).foldl occur (emptyFolder newYear) =
      ⟨newYear, [⟨"fd8", some [("expiration_ts", Itoa (expirationTs newYear (2 ^ 63 - 1)))]⟩],
        [⟨"fd8", newYear, 2 ^ 63 - 1⟩],
        [(⟨"fd8", some [("expiration_ts", Itoa (expirationTs newYear (2 ^ 63 - 1)))]⟩, newYear)]⟩ := by
    decide +kernel
  rw [hfinal]
  intro h
  have houtlived := (h _ List.mem_cons_self).2 _ List.mem_cons_self rfl
  exact absurd houtlived (by decide)

end solution_library.snap_backup
