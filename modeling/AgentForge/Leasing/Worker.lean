import AgentForge.Leasing.LeaseStore

/-!
# The worker

The event loop of one worker: the claim loop, the heartbeat loop and one task for
every instance that is driven.  Each event is what a coroutine does between two
awaits, or the moment at which the database carries out what a coroutine waits
for.  Other processes may change the tables at any time, but only this worker
writes lease rows with its name.
-/

namespace AgentForge.Leasing

open Domain Library Store

/-- The settings of a worker. -/
structure WorkerConfig where
  workerId : String
  concurrency : Nat := 8
  ttl : Time := 30

/-- Where the claim loop waits. -/
inductive ClaimPhase
  | idle
  /-- `acquire_runnable` is under way. -/
  | claiming (limit : Nat) (now : Time)
  /-- It is over, with these leases. -/
  | claimed (leases : List FencedLease)

/-- Where the heartbeat loop waits. -/
inductive BeatPhase
  | sleeping
  /-- `heartbeat` is under way for these instances. -/
  | beating (held : List String) (now : Time)
  /-- It is over, and these leases were extended. -/
  | answered (held alive : List String)

/-- Where `_drive_one` waits. -/
inductive TaskPhase
  /-- The task has been created and has not taken its first step. -/
  | created
  | driving
  /-- `release` is under way. -/
  | releasing
  /-- It is over. -/
  | leaving
  /-- The task was cancelled before it began or before it could remove itself. -/
  | dead
  deriving DecidableEq

/-- A task of `_drive_one`. -/
structure DriveTask where
  lease : FencedLease
  phase : TaskPhase := .created

/-- `task.cancel()`: a drive goes on until it notices, a release is given up, and a
task that has not begun never enters the `try` whose `finally` releases the lease. -/
def DriveTask.cancel (task : DriveTask) : DriveTask :=
  match task.phase with
  | .driving => task
  | .created | .releasing | .leaving | .dead => { task with phase := .dead }

/-- The worker and the tables; and the leases that the claim loop has ignored. -/
structure WorkerState where
  clock : Time
  index : Dict String IndexRow
  leases : Leases
  claim : ClaimPhase := .idle
  beat : BeatPhase := .sleeping
  /-- `_active`. -/
  active : Dict String DriveTask := Dict.empty
  ignored : List FencedLease := []

inductive WorkerEvent
  | tick (now : Time)
  | elsewhere (index : Dict String IndexRow) (leases : Leases)
  | beginClaim
  | claimCommits (instanceIds : List String)
  | claimFails
  | claimResumes
  | driveBegins (instanceId : String)
  | driveEnds (instanceId : String)
  | releaseCommits (instanceId : String)
  | releaseFails (instanceId : String)
  | releaseResumes (instanceId : String)
  | beginHeartbeat
  | heartbeatCommits
  | heartbeatFails
  | heartbeatResumes

namespace WorkerState

variable (config : WorkerConfig) (state : WorkerState)

/-- Claimed leases that the claim loop has not looked at yet. -/
def pending : List FencedLease :=
  match state.claim with
  | .claimed leases => leases
  | _ => []

/-- The index rows of some instances. -/
def rowsOf (instanceIds : List String) : List IndexRow :=
  instanceIds.filterMap state.index.get?

/-- `_spawn`, for an instance that is not active. -/
def spawn (lease : FencedLease) : WorkerState :=
  if (state.active.get? lease.instanceId).isNone then
    { state with active := state.active.set lease.instanceId { lease := lease } }
  else
    { state with ignored := state.ignored ++ [lease] }

/-- A task goes on. -/
def move (instanceId : String) (source target : TaskPhase) : Option WorkerState :=
  match state.active.get? instanceId with
  | some task =>
      if task.phase = source then
        some { state with active := state.active.set instanceId { task with phase := target } }
      else
        none
  | none => none

/-- The rows of this worker are as they were. -/
def keepsOwn (leases : Leases) : Bool :=
  leases.entries.all fun entry =>
    entry.2.workerId ≠ config.workerId || state.leases.get? entry.1 = some entry.2

/-- `acquire_runnable` commits: it claims some of the runnable instances, at most
as many as it was asked for. -/
def claimCommits (instanceIds : List String) : Option WorkerState :=
  match state.claim with
  | .claiming limit now =>
      let rows := state.rowsOf instanceIds
      if rows.length ≤ limit ∧ (rows.map IndexRow.instanceId).Nodup ∧
          ∀ row ∈ rows, claimable now row (state.leases.get? row.instanceId) = true then
        let claimed := state.leases.acquireRows config.ttl config.workerId now rows
        some { state with leases := claimed.2, claim := .claimed claimed.1 }
      else
        none
  | _ => none

/-- The loop over the leases that were claimed. -/
def claimResumes : Option WorkerState :=
  match state.claim with
  | .claimed leases => some (leases.foldl spawn { state with claim := .idle })
  | _ => none

def heartbeatCommits : Option WorkerState :=
  match state.beat with
  | .beating held now =>
      let beaten := state.leases.heartbeat config.ttl config.workerId held now
      some { state with leases := beaten.2, beat := .answered held beaten.1 }
  | _ => none

/-- The loop over the leases that were lost. -/
def heartbeatResumes : Option WorkerState :=
  match state.beat with
  | .answered held alive =>
      some { state with
        beat := .sleeping
        active := state.active.mapWithKey fun instanceId task =>
          if instanceId ∈ held ∧ instanceId ∉ alive then task.cancel else task }
  | _ => none

/-- What an event does, where it can happen. -/
def step : WorkerEvent → Option WorkerState
  | .tick now => if state.clock ≤ now then some { state with clock := now } else none
  | .elsewhere index leases =>
      if state.keepsOwn config leases then some { state with index := index, leases := leases }
      else none
  | .beginClaim =>
      match state.claim with
      | .idle =>
          let free := config.concurrency - state.active.keys.length
          if 0 < free then some { state with claim := .claiming free state.clock } else none
      | _ => none
  | .claimCommits instanceIds => state.claimCommits config instanceIds
  | .claimFails =>
      match state.claim with
      | .claiming _ _ => some { state with claim := .claimed [] }
      | _ => none
  | .claimResumes => state.claimResumes
  | .driveBegins instanceId => state.move instanceId .created .driving
  | .driveEnds instanceId => state.move instanceId .driving .releasing
  | .releaseCommits instanceId => (state.move instanceId .releasing .leaving).map fun next =>
      { next with leases := state.leases.release config.workerId instanceId }
  | .releaseFails instanceId => state.move instanceId .releasing .leaving
  | .releaseResumes instanceId =>
      match state.active.get? instanceId with
      | some task =>
          if task.phase = .leaving then some { state with active := state.active.erase instanceId }
          else none
      | none => none
  | .beginHeartbeat =>
      match state.beat with
      | .sleeping =>
          if state.active.keys = [] then none
          else some { state with beat := .beating state.active.keys state.clock }
      | _ => none
  | .heartbeatCommits => state.heartbeatCommits config
  | .heartbeatFails =>
      match state.beat with
      | .beating _ _ => some { state with beat := .sleeping }
      | _ => none
  | .heartbeatResumes => state.heartbeatResumes

end WorkerState

/-! ## The rows of a claim -/

namespace Leases

variable {ttl : Time} {workerId : String} {now : Time} {leases : Leases} {rows : List IndexRow}

theorem map_instanceId_acquireRows (ttl : Time) (workerId : String) (now : Time) (leases : Leases)
    (rows : List IndexRow) :
    (leases.acquireRows ttl workerId now rows).1.map (fun lease => lease.instanceId) =
      rows.map IndexRow.instanceId := by
  induction rows generalizing leases with
  | nil => rfl
  | cons row rest ih =>
    simp only [acquireRows, List.map_cons, ih]
    rfl

/-- A claim leaves the other rows, and stamps its own with its time. -/
theorem get?_acquireRows (instanceId : String) : (instanceId ∉ rows.map IndexRow.instanceId ∧
        (leases.acquireRows ttl workerId now rows).2.get? instanceId = leases.get? instanceId) ∨
      instanceId ∈ rows.map IndexRow.instanceId ∧
        ∃ row, (leases.acquireRows ttl workerId now rows).2.get? instanceId = some row ∧
          row.heartbeatAt = now := by
  induction rows generalizing leases with
  | nil => exact .inl ⟨List.not_mem_nil, rfl⟩
  | cons row rest ih =>
    simp only [acquireRows, List.map_cons, List.mem_cons, not_or]
    rcases ih with ⟨others, same⟩ | ⟨later, stamped⟩
    · by_cases isFirst : instanceId = row.instanceId
      · refine .inr ⟨.inl isFirst,
          claimedRow ttl workerId now row (leases.get? row.instanceId), same.trans ?_, rfl⟩
        rw [isFirst, Dict.get?_set_self]
      · exact .inl ⟨⟨isFirst, others⟩, same.trans (Dict.get?_set_ne _ isFirst _)⟩
    · exact .inr ⟨.inr later, stamped⟩

end Leases

end AgentForge.Leasing
