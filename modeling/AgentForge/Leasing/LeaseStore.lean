import AgentForge.Engine.Operation

/-!
# The lease store

One lease row per instance: its owner, the times of the claim and of the last
heartbeat, when it expires, and a fence token that every claim counts up.  Rows
are never deleted, and nothing but a claim changes the owner or the token.
-/

namespace AgentForge.Leasing

open Domain Events Library Store

/-- `InstanceLeaseRow`. -/
structure LeaseRow where
  tenantId : String
  workerId : String
  acquiredAt : Time
  heartbeatAt : Time
  expiresAt : Time
  fenceToken : Nat
  deriving DecidableEq

/-- A granted `Lease`, with the fields that a drive does not read. -/
structure FencedLease extends Engine.Lease where
  fenceToken : Nat
  expiresAt : Time
  lastSequence : Nat

/-- `_RUNNABLE_STATUSES`. -/
def runnableStatuses : List WorkflowStatus :=
  [.pending, .running, .retrying]

/-- The table `instance_leases`. -/
abbrev Leases := Dict String LeaseRow

/-- The conditions of the claim on an index row and the lease row next to it. -/
def claimable (now : Time) (row : IndexRow) (lease : Option LeaseRow) : Bool :=
  row.status ∈ runnableStatuses && row.nextWakeupAt.all (· ≤ now) &&
    lease.all fun held => held.expiresAt < now

/-- The row that the upsert of a claim leaves. -/
def claimedRow (ttl : Time) (workerId : String) (now : Time) (row : IndexRow)
    (lease : Option LeaseRow) : LeaseRow where
  tenantId := (lease.map LeaseRow.tenantId).getD row.tenantId
  workerId := workerId
  acquiredAt := now
  heartbeatAt := now
  expiresAt := now + ttl
  fenceToken := (lease.map fun held => held.fenceToken + 1).getD 1

/-- What the worker is given for a claimed row. -/
def leaseOf (row : IndexRow) (lease : LeaseRow) : FencedLease where
  instanceId := row.instanceId
  tenantId := row.tenantId
  workflowId := row.workflowId
  workflowVersion := row.workflowVersion
  workerId := lease.workerId
  fenceToken := lease.fenceToken
  expiresAt := lease.expiresAt
  lastSequence := row.lastSequence

namespace Leases

/-- The loop of `acquire_runnable` over the rows that its claim has selected. -/
def acquireRows (ttl : Time) (workerId : String) (now : Time) (leases : Leases) :
    List IndexRow → List FencedLease × Leases
  | [] => ([], leases)
  | row :: rest =>
      let claimed := claimedRow ttl workerId now row (leases.get? row.instanceId)
      let others := acquireRows ttl workerId now (leases.set row.instanceId claimed) rest
      (leaseOf row claimed :: others.1, others.2)

/-- The rows that the update of one worker's leases matches. -/
def updateOwned (leases : Leases) (workerId : String) (instanceIds : List String)
    (change : LeaseRow → LeaseRow) : Leases :=
  leases.mapWithKey fun instanceId row =>
    if row.workerId = workerId ∧ instanceId ∈ instanceIds then change row else row

/-- `heartbeat`: the instances whose leases were extended, and the table. -/
def heartbeat (ttl : Time) (leases : Leases) (workerId : String) (instanceIds : List String)
    (now : Time) : List String × Leases :=
  (leases.entries.filterMap fun entry =>
      if entry.2.workerId = workerId ∧ entry.1 ∈ instanceIds then some entry.1 else none,
    leases.updateOwned workerId instanceIds fun row =>
      { row with heartbeatAt := now, expiresAt := now + ttl })

/-- `release`. -/
def release (leases : Leases) (workerId instanceId : String) : Leases :=
  leases.updateOwned workerId [instanceId] fun row => { row with expiresAt := row.heartbeatAt - 1 }

/-- `make_guard`: the check that runs in the append transaction. -/
def makeGuard (leases : Leases) (lease : FencedLease) : Except StoreError Unit :=
  match leases.get? lease.instanceId with
  | none => .error (lost lease)
  | some row =>
      if row.workerId ≠ lease.workerId ∨ row.fenceToken ≠ lease.fenceToken then .error (lost lease)
      else .ok ()
where
  lost (lease : FencedLease) : StoreError :=
    .leaseLost s!"worker {lease.workerId} no longer owns {lease.instanceId}"

theorem makeGuard_eq_ok {leases : Leases} {lease : FencedLease} :
    leases.makeGuard lease = .ok () ↔ ∃ row, leases.get? lease.instanceId = some row ∧
      row.workerId = lease.workerId ∧ row.fenceToken = lease.fenceToken := by
  unfold makeGuard
  cases found : leases.get? lease.instanceId with
  | none => simp
  | some row => simp [not_or]

/-- An update that keeps owners and tokens keeps those of every row. -/
theorem get?_updateOwned {leases : Leases} {workerId : String} {instanceIds : List String}
    {change : LeaseRow → LeaseRow}
    (keeps : ∀ row, (change row).workerId = row.workerId ∧ (change row).fenceToken = row.fenceToken)
    (instanceId : String) : ((leases.updateOwned workerId instanceIds change).get? instanceId).map
        (fun row => (row.workerId, row.fenceToken)) =
      (leases.get? instanceId).map fun row => (row.workerId, row.fenceToken) := by
  unfold updateOwned
  rw [Dict.get?_mapWithKey, Option.map_map]
  congr 1
  funext row
  by_cases owned : row.workerId = workerId ∧ instanceId ∈ instanceIds
  · simp [owned, keeps row]
  · simp [owned]

end Leases

end AgentForge.Leasing
