import AgentForge.Domain.Definition
import AgentForge.Library.Dict
import Mathlib.Algebra.Ring.Rat

/-!
# Runtime projection models

The state of a workflow instance as it is rebuilt from its events.  Points in
time are exact numbers of seconds; free-form dictionaries hold JSON values.
-/

namespace AgentForge.Domain

open Library

/-- Values of free-form dictionaries. -/
inductive Json
  | null
  | bool (value : Bool)
  | num (value : Rat)
  | str (value : String)
  | arr (values : List Json)
  | obj (entries : List (String × Json))

/-- `dict[str, Any]`. -/
abbrev JsonDict := Dict String Json

/-- A dictionary as a value of another dictionary. -/
def JsonDict.toJson (dict : JsonDict) : Json :=
  .obj dict.entries

/-- Seconds since a fixed origin. -/
abbrev Time := Rat

structure TokenUsage where
  input : Int := 0
  output : Int := 0
  deriving DecidableEq

structure ToolCall where
  id : String
  name : String
  arguments : JsonDict

/-- The stored form of a model response. -/
structure RecordedResponse where
  modelId : String
  text : String
  tokensInput : Int
  tokensOutput : Int
  stopReason : Option String
  toolCalls : List ToolCall

/-- One entry of `recorded_llm_calls`. -/
structure LLMRecording where
  requestDigest : String
  model : String
  response : RecordedResponse
  tokensInput : Int
  tokensOutput : Int
  costUsd : Rat

structure StepState where
  stepId : String
  status : StepStatus := .pending
  attempts : Nat := 0
  output : Option JsonDict := none
  errorType : Option String := none
  errorMessage : Option String := none
  modelUsed : Option String := none
  costUsd : Rat := 0
  tokens : TokenUsage := {}
  startedAt : Option Time := none
  completedAt : Option Time := none
  nextRetryAt : Option Time := none
  recordedLlmCalls : List LLMRecording := []

structure ErrorRecord where
  stepId : Option String := none
  errorType : String
  errorMessage : String
  occurredAt : Time
  attempt : Option Nat := none

structure EscalationRef where
  escalationId : String
  stepId : String
  reason : String
  deadline : Option Time := none
  resolved : Bool := false

inductive SideEffectStatus
  | pending
  | executed
  | compensated
  deriving DecidableEq, Repr

structure SideEffectRef where
  idempotencyKey : String
  stepId : String
  effectName : String
  status : SideEffectStatus := .pending

structure WorkflowInstance where
  instanceId : String
  tenantId : String
  workflowId : String
  workflowVersion : String
  status : WorkflowStatus := .pending
  context : JsonDict := Dict.empty
  stepStates : Dict String StepState := Dict.empty
  costAccumulatedUsd : Rat := 0
  tokensUsed : TokenUsage := {}
  budgetLimitUsd : Option Rat := none
  errorHistory : List ErrorRecord := []
  escalations : List EscalationRef := []
  sideEffects : List SideEffectRef := []
  version : Nat := 0
  createdAt : Option Time := none
  updatedAt : Option Time := none
  completedAt : Option Time := none

namespace WorkflowInstance

/-- Whose instance it is: its identifier and its tenant. -/
def owner (inst : WorkflowInstance) : String × String :=
  (inst.instanceId, inst.tenantId)

def remainingBudgetUsd (inst : WorkflowInstance) : Option Rat :=
  inst.budgetLimitUsd.map fun limit => limit - inst.costAccumulatedUsd

/-- The stored state of a step, or the initial state of an unseen one. -/
def stepOr (inst : WorkflowInstance) (stepId : String) : StepState :=
  (inst.stepStates.get? stepId).getD { stepId := stepId }

def setStep (inst : WorkflowInstance) (stepId : String) (state : StepState) : WorkflowInstance :=
  { inst with stepStates := inst.stepStates.set stepId state }

/-- Rewrite one step from its current state. -/
def modifyStep (inst : WorkflowInstance) (stepId : String) (change : StepState → StepState) :
    WorkflowInstance :=
  inst.setStep stepId (change (inst.stepOr stepId))

/-- How many steps are in a status. -/
def countSteps (inst : WorkflowInstance) (status : StepStatus) : Nat :=
  inst.stepStates.values.countP fun state => state.status = status

/-- Equality of instances as values: step states are compared by lookup, since
dictionaries do not compare their insertion orders. -/
def Same (first second : WorkflowInstance) : Prop :=
  second = { first with stepStates := second.stepStates } ∧
    first.stepStates.Same second.stepStates

theorem stepOr_of_get? {inst : WorkflowInstance} {stepId : String} {state : StepState}
    (stored : inst.stepStates.get? stepId = some state) : inst.stepOr stepId = state := by
  simp [stepOr, stored]

variable (inst : WorkflowInstance)

include inst

theorem stepOr_setStep (stepId other : String) (state : StepState) :
    (inst.setStep stepId state).stepOr other =
      if other = stepId then state else inst.stepOr other := by
  unfold stepOr setStep
  rw [Dict.get?_set]
  by_cases same : other = stepId
  · simp [same]
  · simp [same]

@[simp]
theorem modifyStep_modifyStep (stepId : String) (first second : StepState → StepState) :
    (inst.modifyStep stepId first).modifyStep stepId second =
      inst.modifyStep stepId fun state => second (first state) := by
  simp [modifyStep, setStep, stepOr]

theorem stepOr_modifyStep (stepId other : String) (change : StepState → StepState) :
    (inst.modifyStep stepId change).stepOr other =
      if other = stepId then change (inst.stepOr other) else inst.stepOr other := by
  unfold modifyStep
  rw [stepOr_setStep]
  by_cases same : other = stepId
  · simp [same]
  · simp [same]

end WorkflowInstance

end AgentForge.Domain
