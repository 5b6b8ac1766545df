import AgentForge.Engine.Driver

/-!
# Operators

The writers without a lease: pausing, resuming and aborting an instance,
resolving and expiring escalations, and requeueing dead letters.  They read the
instance without its definition and append at the version they read.
-/

namespace AgentForge.Engine

open Domain Events Library Store

/-! ## Instance control -/

/-- `_RETRIES`. -/
def controlRetries : Nat := 5

/-- `InstanceControl._transition`, with the tries that are left. -/
def controlTransition (instanceId tenantId : String) (target : WorkflowStatus)
    (reason : String) : Nat → Code Unit
  | 0 => .raise (.conflictError ("instance " ++ instanceId ++ ": could not apply " ++
      target.value ++ " after " ++ toString controlRetries ++ " tries"))
  | tries + 1 => do
      match ← lift (← Code.getInstance instanceId tenantId none) with
      | none => .raise (.configurationError ("instance " ++ instanceId ++ " not found"))
      | some inst =>
          if inst.status.isTerminal then
            .raise (.configurationError
              ("instance " ++ instanceId ++ " is " ++ inst.status.value ++ " (terminal)"))
          else if inst.status = target then pure ()
          else if workflowTransitionAllowed inst.status target = false then
            .raise (.configurationError
              ("cannot move " ++ inst.status.value ++ " -> " ++ target.value))
          else do
            let eventId ← Code.newId
            let occurredAt ← Code.now
            let event : Event :=
              { eventId := eventId, instanceId := instanceId, tenantId := tenantId,
                sequence := 1, occurredAt := occurredAt,
                payload := .instanceStatusChanged inst.status target (some reason) }
            match ← Code.appendNew instanceId tenantId [event] inst.version false none with
            | .ok _ => pure ()
            | .error failure =>
                if failure.exnClass = .conflict then
                  controlTransition instanceId tenantId target reason tries
                else
                  .raise failure

def pause (instanceId tenantId operator : String) : Code Unit :=
  controlTransition instanceId tenantId .paused ("paused by " ++ operator) controlRetries

def resume (instanceId tenantId operator : String) : Code Unit :=
  controlTransition instanceId tenantId .running ("resumed by " ++ operator) controlRetries

def abort (instanceId tenantId operator : String) : Code Unit :=
  controlTransition instanceId tenantId .failed ("aborted by " ++ operator) controlRetries

/-! ## Escalations -/

/-- `EscalationController._event`: a draft at a given time. -/
def draftAt (inst : WorkflowInstance) (now : Time) (payload : Payload) : Code Event := do
  let eventId ← Code.newId
  pure { eventId := eventId, instanceId := inst.instanceId, tenantId := inst.tenantId,
         sequence := 1, occurredAt := now, payload := payload }

/-- `_transition_events`, as payloads: how a resolution moves the step and the
workflow. -/
def transitionPayloads (inst : WorkflowInstance) (stepId : String) (resolution : Resolution)
    (actor : String) : List Payload :=
  let toWorkflow (target : WorkflowStatus) (reason : String) : Payload :=
    .instanceStatusChanged inst.status target (some reason)
  match if stepId = "" then none else inst.stepStates.get? stepId with
  | some state =>
      match resolution with
      | .approve | .modify =>
          [.stepStatusChanged stepId state.status
              (if state.output.isSome then .completed else .ready)
              (some ("approved by " ++ actor)),
            toWorkflow .running ("resumed by " ++ actor)]
      | .skip =>
          [.stepStatusChanged stepId state.status .skipped (some ("skipped by " ++ actor)),
            toWorkflow .running ("resumed by " ++ actor)]
      | .abort => [toWorkflow .failed ("aborted by " ++ actor)]
  | none =>
      let target : WorkflowStatus :=
        match resolution with
        | .approve | .modify | .skip => .rolledBack
        | .abort => .failed
      [toWorkflow target (resolution.value ++ " by " ++ actor)]

/-- `_load`: the pending escalation and its waiting instance. -/
def loadEscalation (escalationId tenantId : String) : Code (EscalationRow × WorkflowInstance) := do
  match (← Code.getEscalation escalationId).filter fun row => row.tenantId = tenantId with
  | none => .raise (.configurationError ("escalation " ++ escalationId ++ " not found"))
  | some row =>
      if row.status ≠ .pending then
        .raise (.configurationError ("escalation " ++ escalationId ++ " is " ++ row.status.value))
      else do
        match ← lift (← Code.getInstance row.instanceId tenantId none) with
        | none => .raise (.configurationError ("instance " ++ row.instanceId ++ " not found"))
        | some inst =>
            if inst.status ≠ .waitingApproval then
              .raise (.configurationError ("instance " ++ row.instanceId ++ " is " ++
                inst.status.value ++ ", not waiting_approval"))
            else
              pure (row, inst)

/-- Arguments of `EscalationController.resolve`. -/
structure ResolveRequest where
  escalationId : String
  tenantId : String
  resolution : Resolution
  resolvedBy : String
  modifiedContext : Option JsonDict := none
  newBudgetUsd : Option Rat := none

def resolvePayloads (inst : WorkflowInstance) (row : EscalationRow) (request : ResolveRequest) :
    List Payload :=
  [.escalationResolved request.escalationId row.stepId request.resolution request.resolvedBy
      request.modifiedContext] ++
    (match request.newBudgetUsd with
      | none => []
      | some limit => [.workflowBudgetAdjusted (some limit) request.resolvedBy
          (some ("escalation " ++ request.escalationId ++ " resolved"))]) ++
    transitionPayloads inst row.stepId request.resolution request.resolvedBy

/-- `EscalationController.resolve`. -/
def resolve (request : ResolveRequest) : Code String := do
  let (row, inst) ← loadEscalation request.escalationId request.tenantId
  let now ← Code.now
  let drafts ← Program.traverse (draftAt inst now) (resolvePayloads inst row request)
  let _ ← lift (← Code.appendNew row.instanceId request.tenantId drafts inst.version false none)
  pure row.instanceId

/-- The action that fires for an expired escalation. -/
def expiryAction (autoAction : String) : Resolution :=
  if autoAction = "approve" then .approve
  else if autoAction = "skip" then .skip
  else .abort

def expiryPayloads (inst : WorkflowInstance) (row : EscalationRow) : List Payload :=
  .escalationTimedOut row.escalationId row.stepId (expiryAction row.autoAction) ::
    transitionPayloads inst row.stepId (expiryAction row.autoAction) "auto"

/-- One iteration of `expire_due`: whether the escalation fired. -/
def expireRow (now : Time) (row : EscalationRow) : Code Bool := do
  match ← lift (← Code.getInstance row.instanceId row.tenantId none) with
  | none => pure false
  | some inst =>
      if inst.status ≠ .waitingApproval then pure false
      else do
        let drafts ← Program.traverse (draftAt inst now) (expiryPayloads inst row)
        match ← Code.appendNew row.instanceId row.tenantId drafts inst.version false none with
        | .ok _ => pure true
        | .error failure => if failure.isException then pure false else .raise failure

/-- `EscalationController.expire_due`. -/
def expireDue (now : Time) (limit : Nat := 50) : Code (List String) := do
  let rows ← Code.dueEscalations now limit
  let fired ← Program.traverse
    (fun row => do
      let hasFired ← expireRow now row
      pure (if hasFired then some row.escalationId else none)) rows
  pure (fired.filterMap id)

/-! ## Dead letters -/

/-- `DeadLetterService.requeue`. -/
def requeue (dlqId : Nat) (tenantId : String) (requeuedBy : String := "operator") :
    Code String := do
  let entry := "dead-letter entry " ++ toString dlqId
  match (← Code.getDeadLetter dlqId).filter fun row => row.tenantId = tenantId with
  | none => .raise (.configurationError (entry ++ " not found"))
  | some row =>
      if row.resolved then .raise (.configurationError (entry ++ " already resolved"))
      else do
        match ← lift (← Code.getInstance row.instanceId tenantId none) with
        | none => .raise (.configurationError ("instance " ++ row.instanceId ++ " not found"))
        | some inst =>
            if inst.status ≠ .deadLettered then
              .raise (.configurationError ("instance " ++ row.instanceId ++ " is " ++
                inst.status.value ++ ", not dead_lettered"))
            else do
              let eventId ← Code.newId
              let occurredAt ← Code.now
              let event : Event :=
                { eventId := eventId, instanceId := row.instanceId, tenantId := tenantId,
                  sequence := 1, occurredAt := occurredAt,
                  payload := .workflowRequeued row.stepId requeuedBy (some dlqId) }
              let _ ← lift
                (← Code.appendNew row.instanceId tenantId [event] inst.version false none)
              Code.resolveDeadLetter dlqId tenantId
              pure row.instanceId

end AgentForge.Engine
