import AgentForge.Events.Fold
import Mathlib.Data.List.Sort

/-!
# The event store

Append-only persistence of the event log, with the snapshot, index and
escalation rows that every commit keeps up to date in the same transaction.  A
commit that raises leaves the tables as they were.  Storing a value and reading
it back is taken to be the identity, so event rows hold the events themselves.
-/

namespace AgentForge.Store

open Domain Events Library

/-- `Snapshot`: a folded instance at a known version. -/
structure Snapshot where
  instanceId : String
  tenantId : String
  version : Nat
  state : WorkflowInstance
  createdAt : Time

/-- `SNAPSHOT_EVERY`. -/
def snapshotEvery : Nat := 50

def shouldSnapshot (lastSnapshotVersion currentVersion : Nat) : Bool :=
  snapshotEvery ≤ currentVersion - lastSnapshotVersion

/-- `InstanceIndexRow`: the read model for status queries and leasing. -/
structure IndexRow where
  instanceId : String
  tenantId : String
  workflowId : String
  workflowVersion : String
  status : WorkflowStatus
  lastSequence : Nat
  costAccumulatedUsd : Rat
  budgetLimitUsd : Option Rat
  nextWakeupAt : Option Time
  completedAt : Option Time

inductive EscalationRowStatus
  | pending
  | resolved
  | timedOut
  deriving DecidableEq, Repr

def EscalationRowStatus.value : EscalationRowStatus → String
  | .pending => "pending"
  | .resolved => "resolved"
  | .timedOut => "timed_out"

/-- `EscalationRow`: the read model for operators and the expiry sweep. -/
structure EscalationRow where
  escalationId : String
  instanceId : String
  tenantId : String
  stepId : String
  reason : String
  recommendation : String
  confidence : Rat
  options : List JsonDict
  autoAction : String
  deadline : Option Time
  status : EscalationRowStatus := .pending
  createdAt : Time
  resolution : Option Resolution := none
  resolvedBy : Option String := none
  resolvedAt : Option Time := none

/-- The escalation rows after one event. -/
def projectEscalation (rows : Dict String EscalationRow) (event : Event) :
    Dict String EscalationRow :=
  match event.payload with
  | .escalationRaised escalation =>
      rows.setDefault escalation.escalationId
        { escalationId := escalation.escalationId, instanceId := event.instanceId,
          tenantId := event.tenantId, stepId := escalation.stepId, reason := escalation.reason,
          recommendation := escalation.recommendation, confidence := escalation.confidence,
          options := escalation.options, autoAction := escalation.autoAction,
          deadline := escalation.deadline, createdAt := event.occurredAt }
  | .escalationResolved escalationId _ resolution resolvedBy _ =>
      match rows.get? escalationId with
      | none => rows
      | some row => rows.set escalationId { row with
          status := .resolved, resolution := resolution, resolvedBy := resolvedBy,
          resolvedAt := event.occurredAt }
  | .escalationTimedOut escalationId _ autoAction =>
      match rows.get? escalationId with
      | none => rows
      | some row => rows.set escalationId { row with
          status := .timedOut, resolution := autoAction, resolvedBy := "auto",
          resolvedAt := event.occurredAt }
  | _ => rows

/-- `_project_escalations`. -/
def projectEscalations (rows : Dict String EscalationRow) (events : List Event) :
    Dict String EscalationRow :=
  events.foldl projectEscalation rows

/-- The tables of the store. -/
structure EventStore where
  events : List Event := []
  snapshots : Dict String Snapshot := Dict.empty
  index : Dict String IndexRow := Dict.empty
  escalations : Dict String EscalationRow := Dict.empty

inductive StoreError
  | eventStream (message : String)
  | invalidStateTransition (message : String)
  | conflict (message : String)
  | leaseLost (message : String)
  | indexError
  deriving DecidableEq, Repr

/-- How an error of the fold is raised. -/
def StoreError.ofFold (failure : FoldError) : StoreError :=
  if failure.isInvalidTransition then .invalidStateTransition failure.message
  else .eventStream failure.message

/-- A check that runs inside the append transaction. -/
abbrev Guard := EventStore → Except StoreError Unit

namespace EventStore

/-- Event rows of one instance. -/
def rowsOf (store : EventStore) (instanceId : String) : List Event :=
  store.events.filter fun event => event.instanceId = instanceId

/-- `max(sequence)` of an instance, or 0. -/
def maxSequence (store : EventStore) (instanceId : String) : Nat :=
  ((store.rowsOf instanceId).map Event.sequence).foldl max 0

def orderBySequence (events : List Event) : List Event :=
  events.insertionSort fun first second => first.sequence ≤ second.sequence

/-- Rows of an instance after a version, ordered by sequence. -/
def tailAfter (store : EventStore) (instanceId : String) (after : Nat) : List Event :=
  orderBySequence ((store.rowsOf instanceId).filter fun event => after < event.sequence)

/-- A folded instance, if it belongs to the tenant. -/
def ownedBy (tenantId : String) (required : Bool) :
    Except FoldError WorkflowInstance → Except StoreError (Option WorkflowInstance)
  | .error failure => .error (.ofFold failure)
  | .ok inst =>
      if inst.tenantId = tenantId then .ok (some inst)
      else if required then .error (.eventStream "tenant mismatch")
      else .ok none

/-- `_project`: the latest snapshot and the fold of the tail after it. -/
def project (store : EventStore) (instanceId tenantId : String)
    (definition : Option WorkflowDefinition := none) (required : Bool := true) :
    Except StoreError (Option WorkflowInstance) :=
  let snap := store.snapshots.get? instanceId
  let tail := store.tailAfter instanceId ((snap.map Snapshot.version).getD 0)
  if snap.isNone && tail.isEmpty then
    if required then .error (.eventStream s!"unknown instance {instanceId}") else .ok none
  else
    ownedBy tenantId required (fold tail definition (snap.map Snapshot.state))

/-- `_upsert_index`. -/
def upsertIndex (store : EventStore) (inst : WorkflowInstance) (nextWakeupAt : Option Time) :
    EventStore :=
  let fresh : IndexRow :=
    { instanceId := inst.instanceId, tenantId := inst.tenantId, workflowId := inst.workflowId,
      workflowVersion := inst.workflowVersion, status := inst.status,
      lastSequence := inst.version, costAccumulatedUsd := inst.costAccumulatedUsd,
      budgetLimitUsd := inst.budgetLimitUsd, nextWakeupAt := nextWakeupAt,
      completedAt := inst.completedAt }
  let row :=
    match store.index.get? inst.instanceId with
    | none => fresh
    | some row =>
        { row with
          status := fresh.status, lastSequence := fresh.lastSequence,
          costAccumulatedUsd := fresh.costAccumulatedUsd,
          budgetLimitUsd := fresh.budgetLimitUsd, nextWakeupAt := fresh.nextWakeupAt,
          completedAt := fresh.completedAt }
  { store with index := store.index.set inst.instanceId row }

/-- `_write_snapshot`; an existing row keeps its tenant. -/
def writeSnapshot (store : EventStore) (inst : WorkflowInstance) (createdAt : Time) :
    EventStore :=
  let tenantId :=
    match store.snapshots.get? inst.instanceId with
    | none => inst.tenantId
    | some row => row.tenantId
  { store with
    snapshots := store.snapshots.set inst.instanceId
      { instanceId := inst.instanceId, tenantId := tenantId, version := inst.version,
        state := inst, createdAt := createdAt } }

/-- Whether the rows violate `UNIQUE(instance_id, sequence)`. -/
def violatesUnique (store : EventStore) (instanceId : String) (events : List Event) : Bool :=
  ¬ ((store.rowsOf instanceId ++ events).map Event.sequence).Nodup

def runGuard (store : EventStore) : Option Guard → Except StoreError Unit
  | none => .ok ()
  | some guard => guard store

/-- Whether an instance has no snapshot yet, or one that is too old. -/
def snapshotDue (store : EventStore) (instanceId : String) (version : Nat) : Bool :=
  match store.snapshots.get? instanceId with
  | none => true
  | some snap => shouldSnapshot snap.version version

/-- The derived rows of a transaction whose events are inserted. -/
def refreshDerived (inserted : EventStore) (instanceId : String) (inst : WorkflowInstance)
    (events : List Event) (nextWakeupAt : Option Time) : Except StoreError EventStore :=
  let indexed := inserted.upsertIndex inst nextWakeupAt
  let projected :=
    { indexed with escalations := projectEscalations indexed.escalations events }
  if projected.snapshotDue instanceId inst.version then
    match events.getLast? with
    | none => .error .indexError
    | some last => .ok (projected.writeSnapshot inst last.occurredAt)
  else
    .ok projected

/-- The transaction of `_commit`. -/
def transact (store : EventStore) (instanceId tenantId : String) (events : List Event)
    (expectedVersion : Nat) (guard : Option Guard) (nextWakeupAt : Option Time) :
    Except StoreError EventStore := do
  if events.any fun event => event.owner ≠ (instanceId, tenantId) then
    throw (.eventStream "event instance_id/tenant_id mismatch")
  else
    store.runGuard guard
    let current := store.maxSequence instanceId
    if current ≠ expectedVersion then
      throw (.conflict s!"instance {instanceId}: expected v{expectedVersion}, found v{current}")
    else if store.violatesUnique instanceId events then
      throw (.conflict s!"instance {instanceId}: concurrent append at v{expectedVersion}")
    else
      let inserted := { store with events := store.events ++ events }
      match ← inserted.project instanceId tenantId with
      | none => throw (.eventStream s!"unknown instance {instanceId}")
      | some inst => inserted.refreshDerived instanceId inst events nextWakeupAt

/-- `_commit`: the tables after it, and what it returns or raises. -/
def commit (store : EventStore) (instanceId tenantId : String) (events : List Event)
    (expectedVersion : Nat) (guard : Option Guard) (nextWakeupAt : Option Time) :
    EventStore × Except StoreError (Nat × List Event) :=
  match store.transact instanceId tenantId events expectedVersion guard nextWakeupAt with
  | .error failure => (store, .error failure)
  | .ok committed =>
      match events.getLast? with
      | none => (committed, .error .indexError)
      | some last => (committed, .ok (last.sequence, events))

/-- The first event whose number is not the next one, with its position. -/
def misnumbered (expectedVersion : Nat) : Nat → List Event → Option (Nat × Event)
  | _, [] => none
  | offset, event :: rest =>
      if event.sequence ≠ expectedVersion + offset then some (offset, event)
      else misnumbered expectedVersion (offset + 1) rest

/-- `append`: the caller has numbered the events. -/
def append (store : EventStore) (instanceId tenantId : String) (events : List Event)
    (expectedVersion : Nat) (guard : Option Guard := none) (nextWakeupAt : Option Time := none) :
    EventStore × Except StoreError Nat :=
  if events.isEmpty then (store, .ok expectedVersion)
  else
    match misnumbered expectedVersion 1 events with
    | some (offset, event) =>
        let number := expectedVersion + offset
        (store, .error (.eventStream
          s!"event {offset} has sequence {event.sequence}, expected {number}"))
    | none =>
        let result := store.commit instanceId tenantId events expectedVersion guard nextWakeupAt
        (result.1, result.2.map Prod.fst)

/-- `append_new`: the store numbers the drafts. -/
def appendNew (store : EventStore) (instanceId tenantId : String) (drafts : List Event)
    (expectedVersion : Nat) (guard : Option Guard := none) (nextWakeupAt : Option Time := none) :
    EventStore × Except StoreError (Nat × List Event) :=
  store.commit instanceId tenantId (resequence expectedVersion drafts) expectedVersion guard
    nextWakeupAt

/-- `load`: the events of an instance of a tenant, in order. -/
def load (store : EventStore) (instanceId tenantId : String) (after : Nat := 0) : List Event :=
  orderBySequence (store.events.filter fun event =>
    event.instanceId = instanceId && event.tenantId = tenantId && after < event.sequence)

def getInstance (store : EventStore) (instanceId tenantId : String)
    (definition : Option WorkflowDefinition := none) :
    Except StoreError (Option WorkflowInstance) :=
  store.project instanceId tenantId definition false

/-- `state_at`: the fold of the whole log up to a version. -/
def stateAt (store : EventStore) (instanceId tenantId : String) (version : Nat)
    (definition : Option WorkflowDefinition := none) :
    Except StoreError (Option WorkflowInstance) :=
  let events := (store.load instanceId tenantId).filter fun event => event.sequence ≤ version
  if events.isEmpty then .ok none
  else
    match fold events definition with
    | .error failure => .error (.ofFold failure)
    | .ok inst => .ok (some inst)

/-- Stores that appends build up from empty tables, successful or not. -/
inductive Reachable : EventStore → Prop
  | empty : Reachable {}
  | append {store : EventStore} (instanceId tenantId : String) (events : List Event)
      (expectedVersion : Nat) (guard : Option Guard) (nextWakeupAt : Option Time) :
      Reachable store →
      Reachable
        (store.append instanceId tenantId events expectedVersion guard nextWakeupAt).1
  | appendNew {store : EventStore} (instanceId tenantId : String) (drafts : List Event)
      (expectedVersion : Nat) (guard : Option Guard) (nextWakeupAt : Option Time) :
      Reachable store →
      Reachable
        (store.appendNew instanceId tenantId drafts expectedVersion guard nextWakeupAt).1

end EventStore

end AgentForge.Store
