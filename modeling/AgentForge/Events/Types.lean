import AgentForge.Domain.Instance

/-!
# The event vocabulary

Every state change of the engine is one of these events.  An event is an
envelope around a payload; the payload constructors are the event types of the
source, with the fields that the fold, the writers or the read models use.
-/

namespace AgentForge.Events

open Domain Library

/-- How an escalation is closed. -/
inductive Resolution
  | approve
  | modify
  | skip
  | abort
  deriving DecidableEq, Repr

def Resolution.value : Resolution → String
  | .approve => "approve"
  | .modify => "modify"
  | .skip => "skip"
  | .abort => "abort"

inductive Guarantee
  | exactlyOnce
  | atLeastOnceDedup
  deriving DecidableEq, Repr

inductive BudgetScope
  | workflow
  | tenantDaily
  deriving DecidableEq, Repr

def BudgetScope.value : BudgetScope → String
  | .workflow => "workflow"
  | .tenantDaily => "tenant_daily"

/-- Fields of `EscalationRaised`, with their defaults. -/
structure Escalation where
  escalationId : String
  stepId : String
  reason : String
  recommendation : String := ""
  confidence : Rat := 0
  options : List JsonDict := []
  deadline : Option Time := none
  autoAction : String := "abort"

inductive Payload
  | instanceCreated (workflowId workflowVersion : String) (context : JsonDict)
      (budgetLimitUsd : Option Rat)
  | instanceStatusChanged (fromStatus toStatus : WorkflowStatus) (reason : Option String)
  | instanceCompleted (outputs : JsonDict)
  | instanceFailed (errorType errorMessage : String)
  | workflowRequeued (stepId : Option String) (requeuedBy : String) (dlqId : Option Nat)
  | workflowBudgetAdjusted (newLimitUsd : Option Rat) (adjustedBy : String)
      (reason : Option String)
  | stepStatusChanged (stepId : String) (fromStatus toStatus : StepStatus)
      (reason : Option String)
  | stepStarted (stepId : String) (attempt : Nat) (workerId : String)
      (modelSelected : Option String)
  | stepCompleted (stepId : String) (attempt : Nat) (output : JsonDict)
      (modelUsed : Option String)
  | stepFailed (stepId : String) (attempt : Nat) (errorType errorMessage : String)
      (retryable : Bool)
  | stepRetryScheduled (stepId : String) (nextAttempt : Nat) (runAt : Time)
  | stepSkipped (stepId : String) (reason : String)
  | stepCompensated (stepId : String) (compensationAction : String)
  | llmCallRecorded (stepId : String) (attempt : Nat) (recording : LLMRecording)
  | toolCallRecorded (stepId : String) (attempt : Nat) (toolName argsDigest : String)
      (result : Json)
  | sideEffectIntentRecorded (stepId effectName idempotencyKey : String) (params : JsonDict)
      (guarantee : Guarantee)
  | sideEffectExecuted (stepId idempotencyKey : String) (result : JsonDict)
      (deduplicated : Bool)
  | sideEffectCompensated (stepId idempotencyKey : String) (result : JsonDict)
  | escalationRaised (escalation : Escalation)
  | escalationResolved (escalationId stepId : String) (resolution : Resolution)
      (resolvedBy : String) (modifiedContext : Option JsonDict)
  | escalationTimedOut (escalationId stepId : String) (autoAction : Resolution)
  | costCharged (stepId : Option String) (amountUsd : Rat) (model : Option String)
      (tokensInput tokensOutput : Int)
  | budgetExceeded (stepId : String) (projectedCostUsd remainingBudgetUsd : Rat)
      (scope : BudgetScope)

/-- The discriminator stored with every event. -/
def Payload.eventType : Payload → String
  | .instanceCreated .. => "InstanceCreated"
  | .instanceStatusChanged .. => "InstanceStatusChanged"
  | .instanceCompleted .. => "InstanceCompleted"
  | .instanceFailed .. => "InstanceFailed"
  | .workflowRequeued .. => "WorkflowRequeued"
  | .workflowBudgetAdjusted .. => "WorkflowBudgetAdjusted"
  | .stepStatusChanged .. => "StepStatusChanged"
  | .stepStarted .. => "StepStarted"
  | .stepCompleted .. => "StepCompleted"
  | .stepFailed .. => "StepFailed"
  | .stepRetryScheduled .. => "StepRetryScheduled"
  | .stepSkipped .. => "StepSkipped"
  | .stepCompensated .. => "StepCompensated"
  | .llmCallRecorded .. => "LLMCallRecorded"
  | .toolCallRecorded .. => "ToolCallRecorded"
  | .sideEffectIntentRecorded .. => "SideEffectIntentRecorded"
  | .sideEffectExecuted .. => "SideEffectExecuted"
  | .sideEffectCompensated .. => "SideEffectCompensated"
  | .escalationRaised .. => "EscalationRaised"
  | .escalationResolved .. => "EscalationResolved"
  | .escalationTimedOut .. => "EscalationTimedOut"
  | .costCharged .. => "CostCharged"
  | .budgetExceeded .. => "BudgetExceeded"

/-- `BaseEvent`: the envelope every event carries. -/
structure Event where
  eventId : String
  instanceId : String
  tenantId : String
  sequence : Nat
  occurredAt : Time
  payload : Payload

/-- The instance and tenant an event belongs to. -/
def Event.owner (event : Event) : String × String :=
  (event.instanceId, event.tenantId)

/-- Whether an event opens a stream. -/
def Event.isGenesis (event : Event) : Bool :=
  match event.payload with
  | .instanceCreated .. => true
  | _ => false

/-- `model_copy(update={"sequence": …})` along a batch: consecutive sequence
numbers after `version`. -/
def resequence : Nat → List Event → List Event
  | _, [] => []
  | version, event :: rest =>
      { event with sequence := version + 1 } :: resequence (version + 1) rest

theorem sequence_resequence (version : Nat) (drafts : List Event) :
    (resequence version drafts).map Event.sequence =
      List.range' (1 + version) (resequence version drafts).length := by
  induction drafts generalizing version with
  | nil => rfl
  | cons draft rest ih =>
    simp only [resequence, List.map_cons, List.length_cons, List.range'_succ, ih]
    simp [Nat.add_comm]

theorem payload_resequence (version : Nat) (drafts : List Event) :
    (resequence version drafts).map Event.payload = drafts.map Event.payload := by
  induction drafts generalizing version with
  | nil => rfl
  | cons draft rest ih => exact congrArg (draft.payload :: ·) (ih (version + 1))

theorem owner_resequence (version : Nat) (drafts : List Event) :
    (resequence version drafts).map Event.owner = drafts.map Event.owner := by
  induction drafts generalizing version with
  | nil => rfl
  | cons draft rest ih => exact congrArg (draft.owner :: ·) (ih (version + 1))

variable {drafts : List Event} {version : Nat}

theorem resequence_eq_nil : resequence version drafts = [] ↔ drafts = [] := by
  cases drafts <;> simp [resequence]

/-- The drafts carry the payloads of the numbered events. -/
theorem exists_of_mem_resequence {event : Event} (member : event ∈ resequence version drafts) :
    ∃ draft ∈ drafts, draft.payload = event.payload := by
  have listed := List.mem_map_of_mem (f := Event.payload) member
  rw [payload_resequence] at listed
  exact List.mem_map.mp listed

theorem forall_mem_resequence {good : Payload → Prop} (all : ∀ event ∈ drafts, good event.payload) :
    ∀ event ∈ resequence version drafts, good event.payload := by
  intro event member
  obtain ⟨draft, listed, same⟩ := exists_of_mem_resequence member
  exact same ▸ all draft listed

end AgentForge.Events
