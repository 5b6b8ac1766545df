import Mathlib.Data.List.Basic

/-!
# State vocabularies and transition tables

The status enumerations of workflows and steps, the tables of permitted moves
and the two predicates the fold consults.
-/

namespace AgentForge.Domain

inductive WorkflowStatus
  | pending
  | running
  | paused
  | waitingApproval
  | retrying
  | failed
  | deadLettered
  | completed
  | rolledBack
  deriving DecidableEq, Repr

inductive StepStatus
  | pending
  | ready
  | running
  | waitingApproval
  | completed
  | failed
  | skipped
  | compensated
  deriving DecidableEq, Repr

/-- What the driver does with a step that failed for good. -/
inductive OnFailure
  | pause
  | rollback
  | deadLetter
  | escalate
  deriving DecidableEq, Repr

/-- The stored text of a workflow status. -/
def WorkflowStatus.value : WorkflowStatus → String
  | .pending => "pending"
  | .running => "running"
  | .paused => "paused"
  | .waitingApproval => "waiting_approval"
  | .retrying => "retrying"
  | .failed => "failed"
  | .deadLettered => "dead_lettered"
  | .completed => "completed"
  | .rolledBack => "rolled_back"

/-- The stored text of a step status. -/
def StepStatus.value : StepStatus → String
  | .pending => "pending"
  | .ready => "ready"
  | .running => "running"
  | .waitingApproval => "waiting_approval"
  | .completed => "completed"
  | .failed => "failed"
  | .skipped => "skipped"
  | .compensated => "compensated"

/-- `TERMINAL_WORKFLOW_STATUSES`. -/
def WorkflowStatus.isTerminal : WorkflowStatus → Bool
  | .completed => true
  | .rolledBack => true
  | _ => false

/-- `WORKFLOW_TRANSITIONS`: the statuses a workflow may move to. -/
def workflowTransitions : WorkflowStatus → List WorkflowStatus
  | .pending => [.running, .paused, .failed, .rolledBack]
  | .running =>
      [.paused, .waitingApproval, .retrying, .failed, .completed, .deadLettered, .rolledBack]
  | .retrying => [.running, .failed, .deadLettered]
  | .paused => [.running, .rolledBack, .failed]
  | .waitingApproval => [.running, .rolledBack, .failed, .deadLettered]
  | .failed => [.running, .retrying, .rolledBack, .deadLettered]
  | .deadLettered => [.running]
  | .completed => []
  | .rolledBack => []

/-- `STEP_TRANSITIONS`: the statuses a step may move to. -/
def stepTransitions : StepStatus → List StepStatus
  | .pending => [.ready, .skipped]
  | .ready => [.running, .skipped, .waitingApproval]
  | .running => [.completed, .failed, .waitingApproval, .ready]
  | .waitingApproval => [.ready, .running, .completed, .skipped, .failed]
  | .failed => [.ready, .running, .skipped, .compensated, .waitingApproval]
  | .completed => [.compensated, .waitingApproval]
  | .skipped => []
  | .compensated => []

def workflowTransitionAllowed (source target : WorkflowStatus) : Bool :=
  target ∈ workflowTransitions source

def stepTransitionAllowed (source target : StepStatus) : Bool :=
  source = target ∨ target ∈ stepTransitions source

/-- A terminal workflow status has no way out. -/
theorem workflowTransitionAllowed_of_isTerminal {source target : WorkflowStatus}
    (terminal : source.isTerminal = true) : workflowTransitionAllowed source target = false := by
  cases source <;> simp_all [WorkflowStatus.isTerminal, workflowTransitionAllowed,
    workflowTransitions]

end AgentForge.Domain
