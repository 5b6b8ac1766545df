import AgentForge.Engine.Operation

/-!
# Planning

`plan` looks at a running instance and decides what the driver does next: which
steps it dispatches, which need an approval first, which failure ends the run,
and when to wake up for a retry.  Step states are looked up by key, as in the
source: a missing key raises.
-/

namespace AgentForge.Engine

open Domain Library

/-- Membership in `_DONE`. -/
def isDone : StepStatus → Bool
  | .completed | .skipped => true
  | _ => false

/-- Membership in `_SETTLED`. -/
def isSettled : StepStatus → Bool
  | .completed | .skipped | .compensated => true
  | _ => false

structure Plan where
  dispatch : List (String × Nat) := []
  approvalNeeded : List String := []
  terminalFailure : Option (String × String) := none
  retryWakeup : Option Time := none
  allSettled : Bool := false
  budgetBlockedStep : Option String := none

/-- `instance.step_states[step_id]`. -/
def stepState (inst : WorkflowInstance) (stepId : String) : Except Exn StepState :=
  match inst.stepStates.get? stepId with
  | some state => .ok state
  | none => .error (.keyError stepId)

/-- `definition.step(step_id)`. -/
def stepOf (definition : WorkflowDefinition) (stepId : String) : Except Exn WorkflowStep :=
  match definition.step stepId with
  | some step => .ok step
  | none => .error (.keyError stepId)

/-- Whether every dependency is done, stopping at the first that is not. -/
def depsDone (inst : WorkflowInstance) : List String → Except Exn Bool
  | [] => pure true
  | dependency :: rest => do
      let state ← stepState inst dependency
      if isDone state.status then depsDone inst rest else pure false

/-- What the first loop of `_plan` has collected. -/
structure Scan where
  candidates : List (String × Nat) := []
  terminalFailure : Option (String × String) := none
  retryWakeup : Option Time := none

/-- The failure that ends a run, as the policy reports it. -/
def failureOf (state : StepState) (stepId : String) : String × String :=
  (stepId, "step " ++ stepId ++ " failed: " ++ state.errorMessage.getD "None")

/-- One iteration of the first loop of `_plan`. -/
def scanStep (inst : WorkflowInstance) (now : Time) (scan : Scan) (step : WorkflowStep) :
    Except Exn Scan := do
  let state ← stepState inst step.stepId
  let ready ← depsDone inst step.dependencies
  let candidate := { scan with
    candidates := scan.candidates ++ [(step.stepId, state.attempts + 1)] }
  match state.status with
  | .pending | .ready => pure (if ready then candidate else scan)
  | .failed =>
      match state.nextRetryAt with
      | none =>
          pure { scan with
            terminalFailure := scan.terminalFailure.or (some (failureOf state step.stepId)) }
      | some retryAt =>
          if retryAt ≤ now then pure candidate
          else pure { scan with
            retryWakeup := some (scan.retryWakeup.elim retryAt fun wakeup => min wakeup retryAt) }
  | _ => pure scan

def scanSteps (inst : WorkflowInstance) (now : Time) :
    List WorkflowStep → Scan → Except Exn Scan
  | [], scan => pure scan
  | step :: rest, scan => do
      let scan ← scanStep inst now scan step
      scanSteps inst now rest scan

/-- Steps with an unresolved escalation. -/
def openEscalations (inst : WorkflowInstance) : List String :=
  (inst.escalations.filter fun ref => !ref.resolved).map EscalationRef.stepId

/-- `_approval_granted`: some escalation of the step has been resolved. -/
def approvalGranted (inst : WorkflowInstance) (stepId : String) : Bool :=
  inst.escalations.any fun ref => ref.stepId = stepId && ref.resolved

/-- Candidates that have to be approved before they may run. -/
def approvalNeeded (inst : WorkflowInstance) (definition : WorkflowDefinition) :
    List (String × Nat) → Except Exn (List String)
  | [] => pure []
  | (stepId, _) :: rest => do
      let step ← stepOf definition stepId
      let needed ← approvalNeeded inst definition rest
      if step.requiresApproval && stepId ∉ openEscalations inst &&
          !approvalGranted inst stepId then
        pure (stepId :: needed)
      else
        pure needed

def budgetOut (inst : WorkflowInstance) : Bool :=
  match inst.remainingBudgetUsd with
  | none => false
  | some remaining => remaining ≤ 0

def allSettled (inst : WorkflowInstance) : List WorkflowStep → Except Exn Bool
  | [] => pure true
  | step :: rest => do
      let state ← stepState inst step.stepId
      if isSettled state.status then allSettled inst rest else pure false

/-- The rest of `_plan`, once no failure ends the run. -/
def planDispatch (inst : WorkflowInstance) (definition : WorkflowDefinition) (scan : Scan) :
    Except Exn Plan :=
  let running := inst.countSteps .running
  let dispatchable := scan.candidates.filter fun candidate =>
    candidate.1 ∉ openEscalations inst
  match dispatchable.head?.filter fun _ => budgetOut inst with
  | some blocked =>
      .ok { budgetBlockedStep := some blocked.1, retryWakeup := scan.retryWakeup }
  | none =>
      let dispatch := dispatchable.take (definition.maxConcurrentSteps - running)
      if dispatch.isEmpty && scan.retryWakeup.isNone && running = 0 then do
        let settled ← allSettled inst definition.steps
        pure { allSettled := settled }
      else
        .ok { dispatch := dispatch, retryWakeup := scan.retryWakeup }

/-- `_plan`. -/
def plan (inst : WorkflowInstance) (definition : WorkflowDefinition) (now : Time) :
    Except Exn Plan := do
  let scan ← scanSteps inst now definition.steps {}
  match scan.terminalFailure with
  | some failure =>
      pure { terminalFailure := some failure, retryWakeup := scan.retryWakeup }
  | none => do
      let needed ← approvalNeeded inst definition scan.candidates
      if needed.isEmpty then planDispatch inst definition scan
      else pure { approvalNeeded := needed, retryWakeup := scan.retryWakeup }

end AgentForge.Engine
