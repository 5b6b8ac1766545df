import AgentForge.Events.Types

/-!
# Folding an event stream

`fold` rebuilds an instance from its events, optionally on top of a base state
and with the definition that seeds the steps at genesis.  Sequence numbers must
be contiguous, a stream without base must open with its genesis event, and
status moves are checked against the transition tables.
-/

namespace AgentForge.Events

open Domain Library

/-- Everything `fold` can raise, with the data the message prints. -/
inductive FoldError
  | nonContiguous (expected actual : Nat)
  | firstEvent (eventType : String)
  | emptyStream
  | staleWorkflow (declared actual : WorkflowStatus)
  | staleStep (stepId : String) (declared actual : StepStatus)
  | workflowTransition (source target : WorkflowStatus)
  | stepTransition (stepId : String) (source target : StepStatus)
  deriving DecidableEq, Repr

def FoldError.message : FoldError → String
  | .nonContiguous expected actual =>
      s!"non-contiguous sequence: expected {expected}, got {actual}"
  | .firstEvent eventType => s!"first event must be InstanceCreated, got {eventType}"
  | .emptyStream => "cannot fold an empty stream without a base instance"
  | .staleWorkflow declared actual =>
      "stale transition: event says from=" ++ declared.value ++ " but instance is " ++ actual.value
  | .staleStep stepId declared actual =>
      "step '" ++ stepId ++ "': event from=" ++ declared.value ++ " but state is " ++ actual.value
  | .workflowTransition source target =>
      "workflow: " ++ source.value ++ " -> " ++ target.value ++ " not allowed"
  | .stepTransition stepId source target =>
      "step '" ++ stepId ++ "': " ++ source.value ++ " -> " ++ target.value ++ " not allowed"

/-- The two errors raised as `InvalidStateTransition`. -/
def FoldError.isInvalidTransition : FoldError → Bool
  | .workflowTransition .. => true
  | .stepTransition .. => true
  | _ => false

def setStepStatus (inst : WorkflowInstance) (stepId : String) (target : StepStatus) :
    Except FoldError WorkflowInstance :=
  if stepTransitionAllowed (inst.stepOr stepId).status target then
    .ok (inst.modifyStep stepId fun state => { state with status := target })
  else
    .error (.stepTransition stepId (inst.stepOr stepId).status target)

/-- The status change itself, after the declared source has been checked. -/
def moveWorkflow (inst : WorkflowInstance) (target : WorkflowStatus) :
    Except FoldError WorkflowInstance :=
  if inst.status ≠ target ∧ workflowTransitionAllowed inst.status target = false then
    .error (.workflowTransition inst.status target)
  else
    .ok { inst with status := target }

def setWorkflowStatus (inst : WorkflowInstance) (target : WorkflowStatus)
    (declaredFrom : Option WorkflowStatus) : Except FoldError WorkflowInstance :=
  match declaredFrom with
  | none => moveWorkflow inst target
  | some declared =>
      if declared ≠ inst.status then .error (.staleWorkflow declared inst.status)
      else moveWorkflow inst target

/-- Decimal digits of a number below 10000, padded to four places. -/
def fourDigits (value : Nat) : String :=
  let digits := toString value
  String.ofList (List.replicate (4 - digits.length) '0') ++ digits

/-- The format `:.4f` of an exact amount, rounding half to even. -/
def formatFixed4 (amount : Rat) : String :=
  let scaled := amount.num.natAbs * 10000
  let floor := scaled / amount.den
  let twice := 2 * (scaled % amount.den)
  let rounded :=
    if amount.den < twice ∨ (twice = amount.den ∧ floor % 2 = 1) then floor + 1 else floor
  (if amount < 0 then "-" else "") ++ toString (rounded / 10000) ++ "." ++
    fourDigits (rounded % 10000)

/-- Mark every reference to an escalation as resolved. -/
def resolveEscalation (inst : WorkflowInstance) (escalationId : String) : WorkflowInstance :=
  { inst with
    escalations := inst.escalations.map fun ref =>
      if ref.escalationId = escalationId then { ref with resolved := true } else ref }

/-- Change the status of the first reference with a key. -/
def markEffect (key : String) (status : SideEffectStatus) : List SideEffectRef → List SideEffectRef
  | [] => []
  | ref :: rest =>
      if ref.idempotencyKey = key then { ref with status := status } :: rest
      else ref :: markEffect key status rest

/-! ## Per-event handlers -/

def onCreated (inst : WorkflowInstance) (context : JsonDict) (budgetLimitUsd : Option Rat)
    (occurredAt : Time) (definition : Option WorkflowDefinition) : WorkflowInstance :=
  let created :=
    { inst with context := context, budgetLimitUsd := budgetLimitUsd, createdAt := occurredAt }
  match definition with
  | none => created
  | some definition =>
      { created with
        stepStates := definition.steps.foldl
          (fun states step => states.setDefault step.stepId { stepId := step.stepId })
          created.stepStates }

def onWorkflowStatus (inst : WorkflowInstance) (fromStatus toStatus : WorkflowStatus)
    (occurredAt : Time) : Except FoldError WorkflowInstance := do
  let moved ← setWorkflowStatus inst toStatus (some fromStatus)
  pure (if moved.status.isTerminal then { moved with completedAt := occurredAt } else moved)

def onCompleted (inst : WorkflowInstance) (outputs : JsonDict) (occurredAt : Time) :
    Except FoldError WorkflowInstance := do
  let moved ← setWorkflowStatus inst .completed none
  let completed := { moved with completedAt := occurredAt }
  pure (if outputs.entries.isEmpty then completed
    else { completed with context := completed.context.set "_outputs" outputs.toJson })

def onFailed (inst : WorkflowInstance) (errorType errorMessage : String) (occurredAt : Time) :
    Except FoldError WorkflowInstance := do
  let moved ← setWorkflowStatus inst .failed none
  pure { moved with
    errorHistory := moved.errorHistory ++
      [{ errorType := errorType, errorMessage := errorMessage, occurredAt := occurredAt }] }

/-- The step state a requeue leaves: runnable, with a fresh retry budget. -/
def requeuedStep (state : StepState) : StepState :=
  { state with
    status := .ready, attempts := 0, nextRetryAt := none, errorType := none,
    errorMessage := none }

def onRequeued (inst : WorkflowInstance) (stepId : Option String) :
    Except FoldError WorkflowInstance := do
  let moved ← setWorkflowStatus inst .running none
  match stepId with
  | none => pure moved
  | some stepId =>
      pure (moved.modifyStep stepId requeuedStep)

def onStepStatus (inst : WorkflowInstance) (stepId : String) (fromStatus toStatus : StepStatus) :
    Except FoldError WorkflowInstance :=
  if fromStatus ≠ (inst.stepOr stepId).status then
    .error (.staleStep stepId fromStatus (inst.stepOr stepId).status)
  else
    setStepStatus inst stepId toStatus

def onStepStarted (inst : WorkflowInstance) (stepId : String) (attempt : Nat)
    (modelSelected : Option String) (occurredAt : Time) : Except FoldError WorkflowInstance := do
  let moved ← setStepStatus inst stepId .running
  pure (moved.modifyStep stepId fun state => { state with
    attempts := attempt, startedAt := occurredAt, nextRetryAt := none,
    modelUsed := if truthy modelSelected then modelSelected else state.modelUsed })

def onStepCompleted (inst : WorkflowInstance) (stepId : String) (output : JsonDict)
    (modelUsed : Option String) (occurredAt : Time) : Except FoldError WorkflowInstance := do
  let moved ← setStepStatus inst stepId .completed
  pure (moved.modifyStep stepId fun state => { state with
    output := output, completedAt := occurredAt,
    modelUsed := if truthy modelUsed then modelUsed else state.modelUsed })

def onStepFailed (inst : WorkflowInstance) (stepId : String) (attempt : Nat)
    (errorType errorMessage : String) (occurredAt : Time) :
    Except FoldError WorkflowInstance := do
  let moved ← setStepStatus inst stepId .failed
  let cleared := moved.modifyStep stepId fun state => { state with
    errorType := errorType, errorMessage := errorMessage, recordedLlmCalls := [] }
  pure { cleared with
    errorHistory := cleared.errorHistory ++
      [{ stepId := stepId, errorType := errorType, errorMessage := errorMessage,
         occurredAt := occurredAt, attempt := attempt }] }

def onRetryScheduled (inst : WorkflowInstance) (stepId : String) (runAt : Time) :
    WorkflowInstance :=
  inst.modifyStep stepId fun state => { state with nextRetryAt := runAt }

def onLlmRecorded (inst : WorkflowInstance) (stepId : String) (recording : LLMRecording) :
    WorkflowInstance :=
  inst.modifyStep stepId fun state => { state with
    modelUsed := recording.model, recordedLlmCalls := state.recordedLlmCalls ++ [recording] }

def onCost (inst : WorkflowInstance) (stepId : Option String) (amountUsd : Rat)
    (tokensInput tokensOutput : Int) : WorkflowInstance :=
  let charged :=
    { inst with
      costAccumulatedUsd := inst.costAccumulatedUsd + amountUsd
      tokensUsed :=
        { input := inst.tokensUsed.input + tokensInput
          output := inst.tokensUsed.output + tokensOutput } }
  match stepId.filter (· ≠ "") with
  | none => charged
  | some stepId =>
      charged.modifyStep stepId fun state => { state with
        costUsd := state.costUsd + amountUsd
        tokens :=
          { input := state.tokens.input + tokensInput
            output := state.tokens.output + tokensOutput } }

def onBudgetExceeded (inst : WorkflowInstance) (stepId : String) (projected remaining : Rat)
    (scope : BudgetScope) (occurredAt : Time) : WorkflowInstance :=
  { inst with
    errorHistory := inst.errorHistory ++
      [{ stepId := stepId, errorType := "BudgetExceededError",
         errorMessage := "projected " ++ formatFixed4 projected ++ " > remaining " ++
           formatFixed4 remaining ++ " (" ++ scope.value ++ ")",
         occurredAt := occurredAt }] }

/-- Hold a step for a decision; workflow-level escalations name no step. -/
def holdStep (inst : WorkflowInstance) (stepId : String) : Except FoldError WorkflowInstance :=
  if stepId = "" then .ok inst else setStepStatus inst stepId .waitingApproval

def onEscalationRaised (inst : WorkflowInstance) (escalation : Escalation) :
    Except FoldError WorkflowInstance := do
  let held ← holdStep inst escalation.stepId
  pure { held with
    escalations := held.escalations ++
      [{ escalationId := escalation.escalationId, stepId := escalation.stepId,
         reason := escalation.reason, deadline := escalation.deadline }] }

def onEscalationResolved (inst : WorkflowInstance) (escalationId : String)
    (modifiedContext : Option JsonDict) : WorkflowInstance :=
  let resolved := resolveEscalation inst escalationId
  match modifiedContext with
  | none => resolved
  | some changes => { resolved with context := resolved.context.update changes.entries }

def onEffectIntent (inst : WorkflowInstance) (stepId effectName key : String) :
    WorkflowInstance :=
  if inst.sideEffects.any fun ref => ref.idempotencyKey = key then inst
  else { inst with
    sideEffects := inst.sideEffects ++
      [{ idempotencyKey := key, stepId := stepId, effectName := effectName }] }

def onEffectExecuted (inst : WorkflowInstance) (stepId key : String) : WorkflowInstance :=
  if inst.sideEffects.any fun ref => ref.idempotencyKey = key then
    { inst with sideEffects := markEffect key .executed inst.sideEffects }
  else { inst with
    sideEffects := inst.sideEffects ++
      [{ idempotencyKey := key, stepId := stepId, effectName := "", status := .executed }] }

def onEffectCompensated (inst : WorkflowInstance) (key : String) : WorkflowInstance :=
  { inst with sideEffects := markEffect key .compensated inst.sideEffects }

/-- `_HANDLERS`: dispatch on the event type. -/
def handle (definition : Option WorkflowDefinition) (inst : WorkflowInstance) (event : Event) :
    Except FoldError WorkflowInstance :=
  match event.payload with
  | .instanceCreated _ _ context budgetLimitUsd =>
      pure (onCreated inst context budgetLimitUsd event.occurredAt definition)
  | .instanceStatusChanged fromStatus toStatus _ =>
      onWorkflowStatus inst fromStatus toStatus event.occurredAt
  | .instanceCompleted outputs => onCompleted inst outputs event.occurredAt
  | .instanceFailed errorType errorMessage =>
      onFailed inst errorType errorMessage event.occurredAt
  | .workflowRequeued stepId _ _ => onRequeued inst stepId
  | .workflowBudgetAdjusted newLimitUsd _ _ => pure { inst with budgetLimitUsd := newLimitUsd }
  | .stepStatusChanged stepId fromStatus toStatus _ =>
      onStepStatus inst stepId fromStatus toStatus
  | .stepStarted stepId attempt _ modelSelected =>
      onStepStarted inst stepId attempt modelSelected event.occurredAt
  | .stepCompleted stepId _ output modelUsed =>
      onStepCompleted inst stepId output modelUsed event.occurredAt
  | .stepFailed stepId attempt errorType errorMessage _ =>
      onStepFailed inst stepId attempt errorType errorMessage event.occurredAt
  | .stepRetryScheduled stepId _ runAt => pure (onRetryScheduled inst stepId runAt)
  | .stepSkipped stepId _ => setStepStatus inst stepId .skipped
  | .stepCompensated stepId _ => setStepStatus inst stepId .compensated
  | .llmCallRecorded stepId _ recording => pure (onLlmRecorded inst stepId recording)
  | .toolCallRecorded .. => pure inst
  | .sideEffectIntentRecorded stepId effectName key _ _ =>
      pure (onEffectIntent inst stepId effectName key)
  | .sideEffectExecuted stepId key _ _ => pure (onEffectExecuted inst stepId key)
  | .sideEffectCompensated _ key _ => pure (onEffectCompensated inst key)
  | .escalationRaised escalation => onEscalationRaised inst escalation
  | .escalationResolved escalationId _ _ _ modifiedContext =>
      pure (onEscalationResolved inst escalationId modifiedContext)
  | .escalationTimedOut escalationId _ _ => pure (resolveEscalation inst escalationId)
  | .costCharged stepId amountUsd _ tokensInput tokensOutput =>
      pure (onCost inst stepId amountUsd tokensInput tokensOutput)
  | .budgetExceeded stepId projected remaining scope =>
      pure (onBudgetExceeded inst stepId projected remaining scope event.occurredAt)

/-! ## The fold -/

/-- The instance an event applies to: the state so far, or the fresh one that a
genesis event opens. -/
def openInstance (state : Option WorkflowInstance) (event : Event) :
    Except FoldError WorkflowInstance :=
  match state with
  | some inst => pure inst
  | none =>
      match event.payload with
      | .instanceCreated workflowId workflowVersion _ _ =>
          pure { instanceId := event.instanceId, tenantId := event.tenantId,
                 workflowId := workflowId, workflowVersion := workflowVersion }
      | payload => throw (.firstEvent payload.eventType)

/-- One iteration of the fold: sequence check, genesis check, handler, stamps. -/
def foldEvent (definition : Option WorkflowDefinition) (expected : Nat)
    (state : Option WorkflowInstance) (event : Event) : Except FoldError WorkflowInstance := do
  if event.sequence ≠ expected then
    throw (.nonContiguous expected event.sequence)
  let opened ← openInstance state event
  let handled ← handle definition opened event
  pure { handled with updatedAt := event.occurredAt, version := event.sequence }

/-- The loop of `fold`. -/
def foldFrom (definition : Option WorkflowDefinition) :
    Nat → Option WorkflowInstance → List Event → Except FoldError (Option WorkflowInstance)
  | _, state, [] => pure state
  | expected, state, event :: rest => do
      let next ← foldEvent definition expected state event
      foldFrom definition (expected + 1) (some next) rest

def fold (events : List Event) (definition : Option WorkflowDefinition := none)
    (base : Option WorkflowInstance := none) : Except FoldError WorkflowInstance := do
  match ← foldFrom definition ((base.map WorkflowInstance.version).getD 0 + 1) base events with
  | some inst => pure inst
  | none => throw .emptyStream

end AgentForge.Events
