import SolutionLibrary.Library.Invariant
import SolutionLibrary.SnapBackup.Functions

namespace solution_library.snap_backup

open invariant text

/-- Where a run of `SpawnHandler` is: before the SDK is built, in the loop over the disks that are still to be listed,
or at its end. -/
inductive Spawner where
  | starting (disks : List Disk)
  | listing (disks : List Disk) (diskIds : List String)
  | returned (response : Response)
  | failed
  deriving DecidableEq

/-- The disks that are still to be listed. -/
def Spawner.disks : Spawner → List Disk
  | starting disks => disks
  | listing disks _ => disks
  | returned _ => []
  | failed => []

/-- What becomes of a message: sent, not sent, or sent without an answer. -/
inductive Send where
  | accepted
  | refused
  | lost
  deriving DecidableEq

structure Env where
  FOLDER_ID : String
  MODE : String
  TTL : Text

/-- The run of `SpawnHandler`, the messages in the queue, the runs of `SnapshotHandler` that have got a message, the
operations under way with how they will end, and the disks that have a snapshot. -/
structure State where
  spawner : Spawner
  queue : List CreateSnapshotParams
  running : List CreateSnapshotParams
  operations : List (String × Bool)
  backedUp : List String
  deriving DecidableEq

/-- A step of some party. `listed` says whether the listing goes on without an error, `deleted` whether a message that
is handled without an error leaves the queue. -/
inductive Act where
  | build (built : Bool)
  | next (listed : Bool) (send : Send)
  | deliver (message : CreateSnapshotParams)
  | handle (message : CreateSnapshotParams) (calls : SnapshotCalls) (deleted : Bool)
  | finish (diskId : String) (succeeds : Bool)
  deriving DecidableEq

/-- The response of `SpawnHandler`. -/
def spawnResponse (diskIds : List String) : Response :=
  ⟨200, ", ".intercalate diskIds⟩

/-- One iteration of the loop of `SpawnHandler`. -/
def spawnNext (env : Env) (s : State) (disks : List Disk) (diskIds : List String) (listed : Bool) (send : Send) :
    State :=
  match disks with
  | [] => { s with spawner := .returned (spawnResponse diskIds) }
  | d :: rest =>
    -- after a listing error `Next` is false as at the end
    if !listed then { s with spawner := .returned (spawnResponse diskIds) }
    else if !selected env.MODE d then { s with spawner := .listing rest diskIds }
    else
      match send with
      | .accepted =>
        { s with
          spawner := .listing rest (diskIds ++ [d.Id])
          queue := constructDiskMessage env.FOLDER_ID d :: s.queue }
      | .refused => { s with spawner := .failed }
      | .lost => { s with spawner := .failed, queue := constructDiskMessage env.FOLDER_ID d :: s.queue }

/-- The snapshot service starts an operation, which may end at once. -/
def startOperation (s : State) (diskId : String) : Option Operation → State
  | none => s
  | some op =>
    if !op.done then { s with operations := (diskId, op.succeeds) :: s.operations }
    else if op.succeeds then { s with backedUp := diskId :: s.backedUp }
    else s

/-- The operation that a run of `SnapshotHandler` starts. -/
def startedOperation (env : Env) (calls : SnapshotCalls) (message : CreateSnapshotParams) : Option Operation :=
  if (SnapshotHandler env.TTL calls message).1.isSome then calls.create.operation else none

/-- The run returns without an error, and its message leaves the queue. -/
def acknowledged (env : Env) (calls : SnapshotCalls) (deleted : Bool) (message : CreateSnapshotParams) : Bool :=
  (SnapshotHandler env.TTL calls message).2.isSome && deleted

def handleMessage (env : Env) (s : State) (message : CreateSnapshotParams) (calls : SnapshotCalls) (deleted : Bool) :
    State :=
  let handled := startOperation { s with running := s.running.erase message } message.DiskId
    (startedOperation env calls message)
  if acknowledged env calls deleted message then { handled with queue := s.queue.filter (· ≠ message) }
  else handled

def step (env : Env) (s : State) : Act → State
  | .build built =>
    match s.spawner with
    | .starting disks => { s with spawner := if built then .listing disks [] else .failed }
    | _ => s
  | .next listed send =>
    match s.spawner with
    | .listing disks diskIds => spawnNext env s disks diskIds listed send
    | _ => s
  | .deliver message => if message ∈ s.queue then { s with running := message :: s.running } else s
  | .handle message calls deleted => if message ∈ s.running then handleMessage env s message calls deleted else s
  | .finish diskId succeeds =>
    if (diskId, succeeds) ∈ s.operations then
      { s with
        operations := s.operations.erase (diskId, succeeds)
        backedUp := if succeeds then diskId :: s.backedUp else s.backedUp }
    else s

def initial (disks : List Disk) : State :=
  ⟨.starting disks, [], [], [], []⟩

/-- The message that a backup of the disk waits in. -/
def Env.message (env : Env) (diskId : String) : CreateSnapshotParams :=
  ⟨env.FOLDER_ID, diskId⟩

/-- The disk has a snapshot, or will have one. -/
def Saved (s : State) (diskId : String) : Prop :=
  diskId ∈ s.backedUp ∨ (diskId, true) ∈ s.operations

/-- The backup of the disk is in the queue or in hand, or there is one. -/
def Covered (env : Env) (s : State) (diskId : String) : Prop :=
  env.message diskId ∈ s.queue ∨ env.message diskId ∈ s.running ∨ Saved s diskId

def Unlisted (env : Env) (s : State) (diskId : String) : Prop :=
  ∃ d ∈ s.spawner.disks, selected env.MODE d = true ∧ d.Id = diskId

def Live (env : Env) (s : State) (diskId : String) : Prop :=
  Unlisted env s diskId ∨ Covered env s diskId

/-- The disks still to be listed and the messages are those of the folder. -/
structure Legitimate (env : Env) (disks : List Disk) (s : State) : Prop where
  unlisted : s.spawner.disks ⊆ disks
  queue : ∀ message ∈ s.queue, ∃ d ∈ disks, selected env.MODE d = true ∧ message = env.message d.Id
  running : ∀ message ∈ s.running, ∃ d ∈ disks, selected env.MODE d = true ∧ message = env.message d.Id

/-- A listing error comes when all selected disks are covered. A handled message stays in the queue, another run has
it, its operation succeeds, or there is a backup without it. -/
def Careful (env : Env) (s : State) : Act → Prop
  | .next false _ =>
    ∀ disks diskIds, s.spawner = .listing disks diskIds → ∀ d ∈ disks, selected env.MODE d = true → Covered env s d.Id
  | .handle message calls deleted =>
    message ∈ s.running →
      (message ∈ s.queue ∧ acknowledged env calls deleted message = false) ∨
        message ∈ s.running.erase message ∨
        (∃ op ∈ startedOperation env calls message, op.succeeds = true) ∨
        Saved s message.DiskId ∨ Unlisted env s message.DiskId
  | _ => True

section steps

variable {env : Env} {disks : List Disk} {s : State} {id : String}

theorem startOperation_fields (s : State) (diskId : String) (op : Option Operation) :
    (startOperation s diskId op).spawner = s.spawner ∧ (startOperation s diskId op).queue = s.queue ∧
      (startOperation s diskId op).running = s.running := by
  cases op with
  | none => exact ⟨rfl, rfl, rfl⟩
  | some op =>
    rw [startOperation]
    split_ifs
    · exact ⟨rfl, rfl, rfl⟩
    · exact ⟨rfl, rfl, rfl⟩
    · exact ⟨rfl, rfl, rfl⟩

theorem saved_startOperation {diskId : String} {op : Option Operation} :
    Saved (startOperation s diskId op) id ↔ Saved s id ∨ id = diskId ∧ ∃ o ∈ op, o.succeeds = true := by
  cases op with
  | none => simp [startOperation]
  | some op =>
    rw [startOperation]
    cases hdone : op.done with
    | false =>
      cases hok : op.succeeds with
      | false => simp [Saved, hok]
      | true =>
        simp [Saved, hok]
        tauto
    | true =>
      cases hok : op.succeeds with
      | false => simp [hok]
      | true =>
        simp [Saved, hok]
        tauto

section handle

variable {message : CreateSnapshotParams} {calls : SnapshotCalls} {deleted : Bool}

theorem handleMessage_spawner : (handleMessage env s message calls deleted).spawner = s.spawner := by
  rw [handleMessage]
  split_ifs
  · exact (startOperation_fields _ _ _).1
  · exact (startOperation_fields _ _ _).1

theorem handleMessage_running : (handleMessage env s message calls deleted).running = s.running.erase message := by
  rw [handleMessage]
  split_ifs
  · exact (startOperation_fields _ _ _).2.2
  · exact (startOperation_fields _ _ _).2.2

theorem mem_handleMessage_queue {other : CreateSnapshotParams} :
    other ∈ (handleMessage env s message calls deleted).queue ↔
      other ∈ s.queue ∧ (acknowledged env calls deleted message = true → other ≠ message) := by
  rw [handleMessage]
  split_ifs with hack
  · simp [hack]
  · simp [hack, (startOperation_fields _ _ _).2.1]

theorem saved_handleMessage : Saved (handleMessage env s message calls deleted) id ↔
    Saved s id ∨ id = message.DiskId ∧ ∃ op ∈ startedOperation env calls message, op.succeeds = true := by
  have hsaved : Saved (handleMessage env s message calls deleted) id ↔
      Saved (startOperation { s with running := s.running.erase message } message.DiskId
        (startedOperation env calls message)) id := by
    rw [handleMessage]
    split_ifs
    · exact Iff.rfl
    · exact Iff.rfl
  rw [hsaved, saved_startOperation]
  exact Iff.rfl

theorem live_handleMessage : Live env (handleMessage env s message calls deleted) id ↔
    Unlisted env s id ∨
      (env.message id ∈ s.queue ∧ (acknowledged env calls deleted message = true → env.message id ≠ message)) ∨
      env.message id ∈ s.running.erase message ∨ Saved s id ∨
        id = message.DiskId ∧ ∃ op ∈ startedOperation env calls message, op.succeeds = true := by
  rw [Live, Covered, Unlisted, handleMessage_spawner, mem_handleMessage_queue, handleMessage_running,
    saved_handleMessage]
  exact Iff.rfl

end handle

theorem message_inj {other : String} : env.message id = env.message other ↔ id = other :=
  ⟨fun h => congrArg CreateSnapshotParams.DiskId h, fun h => congrArg env.message h⟩

theorem live_of_disks_eq {t : State} (hdisks : t.spawner.disks = s.spawner.disks)
    (hcovered : Covered env t id ↔ Covered env s id) : Live env t id ↔ Live env s id := by
  rw [Live, Live, Unlisted, Unlisted, hdisks, hcovered]

theorem live_build {rest : List Disk} (hs : s.spawner = .starting rest) :
    Live env { s with spawner := .listing rest [] } id ↔ Live env s id := by
  apply live_of_disks_eq
  · rw [hs]
    rfl
  · exact Iff.rfl

section next

variable {d : Disk} {rest : List Disk} {diskIds : List String} {listed : Bool} {send : Send}

theorem unlisted_cons (hs : s.spawner = .listing (d :: rest) diskIds) : Unlisted env s id ↔
    (selected env.MODE d = true ∧ d.Id = id) ∨ ∃ e ∈ rest, selected env.MODE e = true ∧ e.Id = id := by
  rw [Unlisted, hs]
  simp only [Spawner.disks, List.mem_cons, exists_eq_or_imp]

/-- A disk that is not to be backed up, or whose message is accepted, is listed. -/
theorem spawnNext_listed (hvalid : (spawnNext env s (d :: rest) diskIds true send).spawner ≠ .failed) :
    (selected env.MODE d = false ∧
      spawnNext env s (d :: rest) diskIds true send = { s with spawner := .listing rest diskIds }) ∨
    (selected env.MODE d = true ∧ spawnNext env s (d :: rest) diskIds true send =
      { s with spawner := .listing rest (diskIds ++ [d.Id]), queue := env.message d.Id :: s.queue }) := by
  cases hselected : selected env.MODE d with
  | false => exact .inl ⟨rfl, by simp [spawnNext, hselected]⟩
  | true =>
    cases send with
    | accepted => exact .inr ⟨rfl, by simp [spawnNext, hselected, constructDiskMessage, Env.message]⟩
    | refused => simp [spawnNext, hselected] at hvalid
    | lost => simp [spawnNext, hselected] at hvalid

/-- A listed disk goes from the listing to the queue, unless it is not to be backed up. -/
theorem live_next_listed (hs : s.spawner = .listing (d :: rest) diskIds)
    (hvalid : (spawnNext env s (d :: rest) diskIds true send).spawner ≠ .failed) :
    Live env (spawnNext env s (d :: rest) diskIds true send) id ↔ Live env s id := by
  rw [Live, Live, unlisted_cons hs]
  obtain ⟨hselected, hnext⟩ | ⟨hselected, hnext⟩ := spawnNext_listed hvalid
  · rw [hnext, hselected]
    simp only [Bool.false_eq_true, false_and, false_or]
    exact Iff.rfl
  · rw [hnext, hselected]
    show ((∃ e ∈ rest, selected env.MODE e = true ∧ e.Id = id) ∨
      env.message id ∈ env.message d.Id :: s.queue ∨ env.message id ∈ s.running ∨ Saved s id) ↔ _
    rw [Covered, List.mem_cons, message_inj, eq_comm (a := id)]
    simp only [true_and, or_assoc, or_left_comm]

/-- Where the loop ends, the disks that were still to be listed have only what they had before. -/
theorem live_of_returned {response : Response} :
    Live env { s with spawner := .returned response } id ↔ Covered env s id := by
  rw [Live]
  apply or_iff_right
  rintro ⟨d, hd, -⟩
  exact absurd hd List.not_mem_nil

end next

theorem live_deliver {message : CreateSnapshotParams} :
    Live env (step env s (.deliver message)) id ↔ Live env s id := by
  rw [step]
  split_ifs with hqueue
  · show (Unlisted env s id ∨ env.message id ∈ s.queue ∨ env.message id ∈ message :: s.running ∨ Saved s id) ↔ _
    rw [Live, Covered, List.mem_cons]
    constructor
    · rintro (h | h | (rfl | h) | h)
      · exact .inl h
      · exact .inr (.inl h)
      · exact .inr (.inl hqueue)
      · exact .inr (.inr (.inl h))
      · exact .inr (.inr (.inr h))
    · tauto
  · exact Iff.rfl

/-- An operation that succeeds leaves a snapshot; one that fails was to leave none. -/
theorem saved_finish {diskId : String} {succeeds : Bool} :
    Saved (step env s (.finish diskId succeeds)) id ↔ Saved s id := by
  by_cases hop : (diskId, succeeds) ∈ s.operations
  · rw [step, if_pos hop, Saved, Saved]
    cases succeeds with
    | false =>
      have hne : (id, true) ≠ (diskId, false) := fun heq => Bool.noConfusion (congrArg Prod.snd heq)
      exact or_congr_right (List.mem_erase_of_ne hne)
    | true =>
      by_cases hid : id = diskId
      · subst hid
        exact iff_of_true (.inl List.mem_cons_self) (.inr hop)
      · have hne : (id, true) ≠ (diskId, true) := fun heq => hid (congrArg Prod.fst heq)
        refine or_congr ?_ (List.mem_erase_of_ne hne)
        exact ⟨fun h => (List.mem_cons.mp h).resolve_left hid, List.mem_cons_of_mem _⟩
  · rw [step, if_neg hop]

theorem step_finish_fields (env : Env) (s : State) (diskId : String) (succeeds : Bool) :
    (step env s (.finish diskId succeeds)).spawner = s.spawner ∧
      (step env s (.finish diskId succeeds)).queue = s.queue ∧
      (step env s (.finish diskId succeeds)).running = s.running := by
  rw [step]
  split_ifs
  · exact ⟨rfl, rfl, rfl⟩
  · exact ⟨rfl, rfl, rfl⟩
  · exact ⟨rfl, rfl, rfl⟩

theorem live_finish {diskId : String} {succeeds : Bool} :
    Live env (step env s (.finish diskId succeeds)) id ↔ Live env s id := by
  obtain ⟨hspawner, hqueue, hrunning⟩ := step_finish_fields env s diskId succeeds
  rw [Live, Live, Covered, Covered, saved_finish, Unlisted, Unlisted, hspawner, hqueue, hrunning]

theorem step_next {rest : List Disk} {diskIds : List String} {listed : Bool} {send : Send}
    (hs : s.spawner = .listing rest diskIds) :
    step env s (.next listed send) = spawnNext env s rest diskIds listed send := by
  rw [step, hs]

theorem spawnNext_not_listed {rest : List Disk} {diskIds : List String} {send : Send} :
    spawnNext env s rest diskIds false send = { s with spawner := .returned (spawnResponse diskIds) } := by
  cases rest with
  | nil => rfl
  | cons d rest => rfl

/-- What a failed run leaves: at most the message of the next disk is in the queue. -/
theorem live_of_spawnNext_failed {rest : List Disk} {diskIds : List String} {listed : Bool} {send : Send}
    (hs : s.spawner = .listing rest diskIds) (hfailed : (spawnNext env s rest diskIds listed send).spawner = .failed)
    (h : Live env (spawnNext env s rest diskIds listed send) id) : Live env s id := by
  cases rest with
  | nil => cases hfailed
  | cons d rest =>
    cases listed with
    | false => cases hfailed
    | true =>
      cases hselected : selected env.MODE d with
      | false => simp [spawnNext, hselected] at hfailed
      | true =>
        cases send with
        | accepted => simp [spawnNext, hselected] at hfailed
        | refused =>
          have hnext : spawnNext env s (d :: rest) diskIds true .refused = { s with spawner := .failed } := by
            simp [spawnNext, hselected]
          rw [hnext] at h
          obtain ⟨e, he, -⟩ | h := h
          · exact absurd he List.not_mem_nil
          · exact .inr h
        | lost =>
          have hnext : spawnNext env s (d :: rest) diskIds true .lost =
              { s with spawner := .failed, queue := env.message d.Id :: s.queue } := by
            simp [spawnNext, hselected, constructDiskMessage, Env.message]
          rw [hnext] at h
          obtain ⟨e, he, -⟩ | hqueue | h := h
          · exact absurd he List.not_mem_nil
          · obtain heq | hqueue := List.mem_cons.mp hqueue
            · exact .inl ⟨d, by rw [hs]; exact List.mem_cons_self, hselected, (message_inj.mp heq).symm⟩
            · exact .inr (.inl hqueue)
          · exact .inr (.inr h)

/-- A backup that is lost stays lost. -/
theorem live_of_live_step (hlegit : Legitimate env disks s) {act : Act} (h : Live env (step env s act) id) :
    Live env s id := by
  cases act with
  | build built =>
    rw [step] at h
    split at h
    · next rest hs =>
      cases built with
      | true => exact (live_build hs).mp h
      | false =>
        obtain ⟨d, hd, -⟩ | h := h
        · exact absurd hd List.not_mem_nil
        · exact .inr h
    · exact h
  | next listed send =>
    cases hs : s.spawner with
    | listing rest diskIds =>
      rw [step_next hs] at h
      by_cases hfailed : (spawnNext env s rest diskIds listed send).spawner = .failed
      · exact live_of_spawnNext_failed hs hfailed h
      · cases listed with
        | false =>
          rw [spawnNext_not_listed, live_of_returned] at h
          exact .inr h
        | true =>
          cases rest with
          | nil => exact .inr (live_of_returned.mp h)
          | cons d rest => exact (live_next_listed hs hfailed).mp h
    | starting => rwa [step, hs] at h
    | returned => rwa [step, hs] at h
    | failed => rwa [step, hs] at h
  | deliver message => exact live_deliver.mp h
  | handle message calls deleted =>
    rw [step] at h
    split_ifs at h with hrunning
    · obtain h | ⟨h, -⟩ | h | h | ⟨rfl, -⟩ := live_handleMessage.mp h
      · exact .inl h
      · exact .inr (.inl h)
      · exact .inr (.inr (.inl (List.mem_of_mem_erase h)))
      · exact .inr (.inr (.inr h))
      · obtain ⟨d, -, -, rfl⟩ := hlegit.running message hrunning
        exact .inr (.inr (.inl hrunning))
    · exact h
  | finish diskId succeeds => exact live_finish.mp h

theorem live_spawnNext {rest : List Disk} {diskIds : List String} {listed : Bool} {send : Send}
    (hs : s.spawner = .listing rest diskIds)
    (hvalid : (spawnNext env s rest diskIds listed send).spawner ≠ .failed) :
    Live env (spawnNext env s rest diskIds listed send) id ↔
      if listed then Live env s id else Covered env s id := by
  cases listed with
  | false =>
    rw [spawnNext_not_listed, live_of_returned]
    exact Iff.rfl
  | true =>
    cases rest with
    | nil =>
      have hunlisted : ¬ Unlisted env s id := by
        rw [Unlisted, hs]
        rintro ⟨d, hd, -⟩
        exact absurd hd List.not_mem_nil
      have hcovered : Live env s id ↔ Covered env s id := or_iff_right hunlisted
      rw [if_pos rfl, hcovered]
      exact live_of_returned
    | cons d rest => exact live_next_listed hs hvalid

/-- A careful step loses no backup. -/
theorem live_step {act : Act} (hvalid : (step env s act).spawner ≠ .failed)
    (hcareful : Careful env s act) (h : Live env s id) : Live env (step env s act) id := by
  cases act with
  | build built =>
    rw [step] at hvalid ⊢
    split at hvalid
    · next rest hs =>
      cases built with
      | true => exact (live_build hs).mpr h
      | false => exact absurd rfl hvalid
    · exact h
  | next listed send =>
    cases hs : s.spawner with
    | listing rest diskIds =>
      rw [step_next hs] at hvalid ⊢
      rw [live_spawnNext hs hvalid]
      cases listed with
      | true => exact h
      | false =>
        obtain ⟨d, hd, hselected, rfl⟩ | h := h
        · rw [hs] at hd
          exact hcareful rest diskIds hs d hd hselected
        · exact h
    | starting => rwa [step, hs]
    | returned => rwa [step, hs]
    | failed => rwa [step, hs]
  | deliver message => exact live_deliver.mpr h
  | handle message calls deleted =>
    rw [step]
    split_ifs with hrunning
    · rw [live_handleMessage]
      by_cases hmessage : env.message id = message
      · subst hmessage
        obtain ⟨hqueue, hack⟩ | hother | hop | hsaved | hunlisted := hcareful hrunning
        · refine .inr (.inl ⟨hqueue, fun hacknowledged => ?_⟩)
          rw [hack] at hacknowledged
          cases hacknowledged
        · exact .inr (.inr (.inl hother))
        · exact .inr (.inr (.inr (.inr ⟨rfl, hop⟩)))
        · exact .inr (.inr (.inr (.inl hsaved)))
        · exact .inl hunlisted
      · obtain hunlisted | hqueue | hother | hsaved := h
        · exact .inl hunlisted
        · exact .inr (.inl ⟨hqueue, fun _ => hmessage⟩)
        · exact .inr (.inr (.inl ((List.mem_erase_of_ne hmessage).mpr hother)))
        · exact .inr (.inr (.inr (.inl hsaved)))
    · exact h
  | finish diskId succeeds => exact live_finish.mpr h

/-- A step that is not careful loses a backup. -/
theorem not_live_step (hlegit : Legitimate env disks s) {act : Act} (hvalid : (step env s act).spawner ≠ .failed)
    (hcareful : ¬ Careful env s act) :
    ∃ d ∈ disks, selected env.MODE d = true ∧ ¬ Live env (step env s act) d.Id := by
  cases act with
  | build built => exact absurd trivial hcareful
  | next listed send =>
    cases listed with
    | true => exact absurd trivial hcareful
    | false =>
      rw [Careful] at hcareful
      push Not at hcareful
      obtain ⟨rest, diskIds, hs, d, hd, hselected, hcovered⟩ := hcareful
      rw [step_next hs] at hvalid ⊢
      refine ⟨d, hlegit.unlisted (by rwa [hs]), hselected, ?_⟩
      rwa [live_spawnNext hs hvalid]
  | deliver message => exact absurd trivial hcareful
  | handle message calls deleted =>
    rw [Careful] at hcareful
    push Not at hcareful
    obtain ⟨hrunning, hqueue, hother, hop, hsaved, hunlisted⟩ := hcareful
    obtain ⟨d, hd, hselected, rfl⟩ := hlegit.running message hrunning
    refine ⟨d, hd, hselected, ?_⟩
    rw [step, if_pos hrunning, live_handleMessage]
    rintro (hlisted | ⟨hwaiting, hkept⟩ | hrun | hsave | ⟨-, op, hop', hsucceeds⟩)
    · exact hunlisted hlisted
    · exact hkept (by simpa using hqueue hwaiting) rfl
    · exact hother hrun
    · exact hsaved hsave
    · exact hop op hop' hsucceeds
  | finish diskId succeeds => exact absurd trivial hcareful

theorem Legitimate.spawnNext (h : Legitimate env disks s) {rest : List Disk} {diskIds : List String} {listed : Bool}
    {send : Send} (hs : s.spawner = .listing rest diskIds) :
    Legitimate env disks (spawnNext env s rest diskIds listed send) := by
  have hnil : ([] : List Disk) ⊆ disks := List.nil_subset _
  have hrest : rest ⊆ disks := by
    have hunlisted := h.unlisted
    rwa [hs] at hunlisted
  cases listed with
  | false =>
    rw [spawnNext_not_listed]
    exact ⟨hnil, h.queue, h.running⟩
  | true =>
    cases rest with
    | nil => exact ⟨hnil, h.queue, h.running⟩
    | cons d rest =>
      obtain ⟨hd, hrest⟩ := List.cons_subset.mp hrest
      cases hselected : selected env.MODE d with
      | false =>
        simp only [snap_backup.spawnNext, hselected, Bool.not_true, Bool.not_false, Bool.false_eq_true, if_false,
          if_true]
        exact ⟨hrest, h.queue, h.running⟩
      | true =>
        have hqueue := List.forall_mem_cons.mpr ⟨⟨d, hd, hselected, rfl⟩, h.queue⟩
        simp only [snap_backup.spawnNext, hselected, Bool.not_true, Bool.false_eq_true, if_false]
        cases send with
        | accepted => exact ⟨hrest, hqueue, h.running⟩
        | refused => exact ⟨hnil, h.queue, h.running⟩
        | lost => exact ⟨hnil, hqueue, h.running⟩

theorem Legitimate.step (h : Legitimate env disks s) (act : Act) : Legitimate env disks (step env s act) := by
  cases act with
  | build built =>
    rw [snap_backup.step]
    split
    · next rest hs =>
      have hunlisted := h.unlisted
      rw [hs] at hunlisted
      cases built with
      | true => exact ⟨hunlisted, h.queue, h.running⟩
      | false => exact ⟨List.nil_subset _, h.queue, h.running⟩
    · exact h
  | next listed send =>
    rw [snap_backup.step]
    split
    · next rest diskIds hs => exact h.spawnNext hs
    · exact h
  | deliver message =>
    rw [snap_backup.step]
    split_ifs with hqueue
    · exact ⟨h.unlisted, h.queue, List.forall_mem_cons.mpr ⟨h.queue message hqueue, h.running⟩⟩
    · exact h
  | handle message calls deleted =>
    rw [snap_backup.step]
    split_ifs with hrunning
    · refine ⟨by rw [handleMessage_spawner]; exact h.unlisted, fun other hother => ?_, fun other hother => ?_⟩
      · exact h.queue other (mem_handleMessage_queue.mp hother).1
      · rw [handleMessage_running] at hother
        exact h.running other (List.mem_of_mem_erase hother)
    · exact h
  | finish diskId succeeds =>
    obtain ⟨hspawner, hqueue, hrunning⟩ := step_finish_fields env s diskId succeeds
    exact ⟨hspawner ▸ h.unlisted, hqueue ▸ h.queue, hrunning ▸ h.running⟩

theorem step_failed (h : s.spawner = .failed) (act : Act) : (step env s act).spawner = .failed := by
  cases act with
  | build built => simp only [step, h]
  | next listed send => simp only [step, h]
  | deliver message =>
    rw [step]
    split_ifs
    · exact h
    · exact h
  | handle message calls deleted =>
    rw [step]
    split_ifs
    · rw [handleMessage_spawner, h]
    · exact h
  | finish diskId succeeds => exact (step_finish_fields env s diskId succeeds).1.trans h

end steps

/-- `SpawnHandler` has returned 200 and the queue is empty. -/
def Settled (s : State) : Prop :=
  (∃ response, s.spawner = .returned response ∧ response.StatusCode = 200) ∧ s.queue = []

/-- Every disk of the folder that the mode selects has a snapshot. -/
def AllBackedUp (env : Env) (disks : List Disk) (s : State) : Prop :=
  ∀ d ∈ disks, selected env.MODE d = true → d.Id ∈ s.backedUp

/-- No run and no operation that is to succeed is under way for a disk without a snapshot. -/
def Finished (env : Env) (disks : List Disk) (s : State) : Prop :=
  ∀ d ∈ disks, selected env.MODE d = true → env.message d.Id ∈ s.running ∨ (d.Id, true) ∈ s.operations →
    d.Id ∈ s.backedUp

section runs

variable {env : Env} {disks : List Disk} {acts : List Act}

theorem along_not_failed {s : State} (h : (acts.foldl (step env) s).spawner ≠ .failed) :
    Along (step env) (fun s act => (step env s act).spawner ≠ .failed) s acts := by
  induction acts generalizing s with
  | nil => trivial
  | cons act acts ih =>
    refine ⟨fun hfailed => h ?_, ih h⟩
    have hstays (acts : List Act) {t : State} (ht : t.spawner = .failed) :
        (acts.foldl (step env) t).spawner = .failed := by
      induction acts generalizing t with
      | nil => exact ht
      | cons next acts ih => exact ih (step_failed ht next)
    exact hstays acts hfailed

theorem legitimate_initial (env : Env) (disks : List Disk) : Legitimate env disks (initial disks) where
  unlisted := List.Subset.refl _
  queue _ h := absurd h List.not_mem_nil
  running _ h := absurd h List.not_mem_nil

structure Good (env : Env) (disks : List Disk) (s : State) : Prop where
  legitimate : Legitimate env disks s
  live : ∀ d ∈ disks, selected env.MODE d = true → Live env s d.Id

structure Bad (env : Env) (disks : List Disk) (s : State) : Prop where
  legitimate : Legitimate env disks s
  dead : ∃ d ∈ disks, selected env.MODE d = true ∧ ¬ Live env s d.Id

theorem good_initial (env : Env) (disks : List Disk) : Good env disks (initial disks) where
  legitimate := legitimate_initial env disks
  live d hd hselected := .inl ⟨d, hd, hselected, rfl⟩

theorem Good.not_bad {s : State} (h : Good env disks s) : ¬ Bad env disks s := by
  rintro ⟨-, d, hd, hselected, hdead⟩
  exact hdead (h.live d hd hselected)

theorem legitimate_run (env : Env) (disks : List Disk) (acts : List Act) :
    Legitimate env disks (acts.foldl (step env) (initial disks)) := by
  have hrun (s : State) (h : Legitimate env disks s) : Legitimate env disks (acts.foldl (step env) s) := by
    induction acts generalizing s with
    | nil => exact h
    | cons act acts ih => exact ih _ (h.step act)
  exact hrun _ (legitimate_initial env disks)

/-- As long as `SpawnHandler` has not failed, the backups are all live exactly if each step was careful. -/
theorem along_careful_iff (h : (acts.foldl (step env) (initial disks)).spawner ≠ .failed) :
    Along (step env) (Careful env) (initial disks) acts ↔
      ∀ d ∈ disks, selected env.MODE d = true → Live env (acts.foldl (step env) (initial disks)) d.Id := by
  have hiff : Along (step env) (Careful env) (initial disks) acts ↔
      ¬ Bad env disks (acts.foldl (step env) (initial disks)) := by
    apply along_iff_not_bad (Good env disks) (Bad env disks) (fun s hgood => hgood.not_bad) _ _ _
      (good_initial env disks) (along_not_failed h)
    · intro s act hgood hvalid hcareful
      exact ⟨hgood.legitimate.step act, fun d hd hselected => live_step hvalid hcareful (hgood.live d hd hselected)⟩
    · intro s act hgood hvalid hcareful
      exact ⟨hgood.legitimate.step act, not_live_step hgood.legitimate hvalid hcareful⟩
    · rintro s act ⟨hlegit, d, hd, hselected, hdead⟩
      exact ⟨hlegit.step act, d, hd, hselected, fun hlive => hdead (live_of_live_step hlegit hlive)⟩
  rw [hiff]
  constructor
  · intro hgood d hd hselected
    by_contra hdead
    exact hgood ⟨legitimate_run env disks acts, d, hd, hselected, hdead⟩
  · rintro hlive ⟨-, d, hd, hselected, hdead⟩
    exact hdead (hlive d hd hselected)

/-- Once `SpawnHandler` has returned 200 and the queue is empty, every selected disk has a snapshot exactly if no step
has lost a backup and nothing is under way. -/
theorem backed_up_iff (env : Env) (disks : List Disk) (acts : List Act) :
    (Settled (acts.foldl (step env) (initial disks)) → AllBackedUp env disks (acts.foldl (step env) (initial disks))) ↔
      (Settled (acts.foldl (step env) (initial disks)) → Along (step env) (Careful env) (initial disks) acts ∧
        Finished env disks (acts.foldl (step env) (initial disks))) := by
  refine imp_congr_right fun hsettled => ?_
  obtain ⟨⟨response, hreturned, -⟩, hqueue⟩ := hsettled
  have hvalid : (acts.foldl (step env) (initial disks)).spawner ≠ .failed := by
    rw [hreturned]
    exact Spawner.noConfusion
  rw [along_careful_iff hvalid]
  constructor
  · intro hall
    refine ⟨fun d hd hselected => ?_, fun d hd hselected _ => hall d hd hselected⟩
    exact .inr (.inr (.inr (.inl (hall d hd hselected))))
  · rintro ⟨hlive, hfinished⟩ d hd hselected
    obtain ⟨e, he, -⟩ | hwaiting | hrunning | hsaved | hoperation := hlive d hd hselected
    · rw [hreturned] at he
      exact absurd he List.not_mem_nil
    · rw [hqueue] at hwaiting
      exact absurd hwaiting List.not_mem_nil
    · exact hfinished d hd hselected (.inl hrunning)
    · exact hsaved
    · exact hfinished d hd hselected (.inr hoperation)

end runs

/-- The folder of one disk, with the default settings. -/
def quotaEnv : Env := ⟨"b1g", "all", "604800".toList⟩

def quotaDisk : Disk := ⟨"epd", none⟩

/-- The disk is listed and its message delivered once; the operation has failed when the answer comes. -/
def quotaActs : List Act :=
  [.build true, .next true .accepted, .next true .accepted, .deliver (quotaEnv.message "epd"),
    .handle (quotaEnv.message "epd") ⟨true, 0, true, .started ⟨"fd8", true, false, "quota"⟩, true⟩ true]

/-- The run returns a response without an error, so the queue deletes the message of a disk without a snapshot. -/
theorem failed_operation_acknowledged : ¬ (Settled (quotaActs.foldl (step quotaEnv) (initial [quotaDisk])) →
    AllBackedUp quotaEnv [quotaDisk] (quotaActs.foldl (step quotaEnv) (initial [quotaDisk]))) := by
  intro h
  have hstate : quotaActs.foldl (step quotaEnv) (initial [quotaDisk]) =
      ⟨.returned (spawnResponse ["epd"]), [], [], [], []⟩ := by
    decide +kernel
  rw [hstate] at h
  exact absurd (h ⟨⟨_, rfl, rfl⟩, rfl⟩ quotaDisk (List.mem_singleton_self _) rfl) List.not_mem_nil

end solution_library.snap_backup
