import AgentForge.Engine.Executor
import AgentForge.Engine.Plan

/-!
# The workflow driver

`drive` advances one leased instance as far as it will go: it resets steps that
a dead worker left running, starts or wakes the instance, dispatches waves of
runnable steps, schedules retries, raises escalations, applies the failure
policy and completes the workflow.  The instance is kept in memory and every
appended batch is folded onto it.  Metrics, logging and notifications have no
influence on the run and are left out.
-/

namespace AgentForge.Engine

open Domain Events Library

inductive DriveResult
  | completed
  | paused
  | deadLettered
  | rolledBack
  | parked
  | waitingApproval
  | leaseLost
  | idle
  deriving DecidableEq, Repr

structure DriveReport where
  instanceId : String
  result : DriveResult
  nextWakeupAt : Option Time := none

/-! ## Append plumbing -/

/-- `_event`: a draft with a placeholder number. -/
def draftEvent (inst : WorkflowInstance) (payload : Payload) : Code Event := do
  let eventId ← Code.newId
  let occurredAt ← Code.now
  pure { eventId := eventId, instanceId := inst.instanceId, tenantId := inst.tenantId,
         sequence := 1, occurredAt := occurredAt, payload := payload }

/-- `fold(events, base=instance, definition=definition)`. -/
def foldOnto (definition : WorkflowDefinition) (inst : WorkflowInstance) (events : List Event) :
    Except Exn WorkflowInstance :=
  match fold events (some definition) (some inst) with
  | .ok next => .ok next
  | .error failure => .error (.ofFold failure)

/-- `_append`: append under the lease guard and fold the numbered events. -/
def append (definition : WorkflowDefinition) (inst : WorkflowInstance) (drafts : List Event)
    (nextWakeupAt : Option Time := none) : Code WorkflowInstance :=
  if drafts.isEmpty then pure inst
  else do
    let response ← Code.appendNew inst.instanceId inst.tenantId drafts inst.version true
      nextWakeupAt
    let (_, events) ← lift response
    lift (foldOnto definition inst events)

/-- `_transition`. -/
def transition (definition : WorkflowDefinition) (inst : WorkflowInstance)
    (source target : WorkflowStatus) (reason : Option String := none)
    (nextWakeupAt : Option Time := none) : Code WorkflowInstance := do
  let draft ← draftEvent inst (.instanceStatusChanged source target reason)
  append definition inst [draft] nextWakeupAt

/-! ## Recovery -/

/-- `_recover_in_flight`: steps left running by a dead worker become ready. -/
def recoverInFlight (definition : WorkflowDefinition) (inst : WorkflowInstance) :
    Code WorkflowInstance := do
  let stale := (inst.stepStates.entries.filter fun entry => entry.2.status = .running).map Prod.fst
  let drafts ← Program.traverse
    (fun stepId => draftEvent inst
      (.stepStatusChanged stepId .running .ready (some "worker-recovered"))) stale
  append definition inst drafts

/-! ## Dispatch -/

/-- `PENDING` steps become `READY` before anything else happens to them. -/
def readyEvents (inst : WorkflowInstance) (stepId : String) : Code (List Event) := do
  let state ← lift (stepState inst stepId)
  if state.status = .pending then
    let event ← draftEvent inst
      (.stepStatusChanged stepId .pending .ready (some "dependencies satisfied"))
    pure [event]
  else
    pure []

def startEvents (inst : WorkflowInstance) (workerId : String) (candidate : String × Nat) :
    Code (List Event) := do
  let readied ← readyEvents inst candidate.1
  let started ← draftEvent inst (.stepStarted candidate.1 candidate.2 workerId none)
  pure (readied ++ [started])

/-- `BudgetService.view`. -/
def budgetView (config : Config) (inst : WorkflowInstance) : Code (Option BudgetView) :=
  match config.budget with
  | none => pure none
  | some dailyLimit => do
      let now ← Code.now
      match dailyLimit with
      | none =>
          pure (some { remainingWorkflowUsd := inst.remainingBudgetUsd,
                       remainingTenantDailyUsd := none })
      | some limit => do
          let spent ← Code.spentToday inst.tenantId now
          pure (some { remainingWorkflowUsd := inst.remainingBudgetUsd,
                       remainingTenantDailyUsd := some (limit - spent) })

/-- `_resolve_inputs`. -/
def resolveInputs (inst : WorkflowInstance) (step : WorkflowStep) : JsonDict :=
  step.dependencies.foldl
    (fun inputs dependency =>
      let output := ((inst.stepStates.get? dependency).bind StepState.output).getD Dict.empty
      inputs.set dependency (JsonDict.toJson output))
    inst.context

/-- A finished attempt of a wave. -/
structure AttemptResult where
  stepId : String
  attempt : Nat
  step : WorkflowStep
  outcome : StepOutcome

/-- The context that `_one` runs a dispatched step in. -/
abbrev attemptContext (config : Config) (inst : WorkflowInstance) (budget : Option BudgetView)
    (step : WorkflowStep) (state : StepState) (candidate : String × Nat) : StepContext :=
  { instanceId := inst.instanceId, tenantId := inst.tenantId, stepId := candidate.1,
    agentType := step.agentType, attempt := candidate.2, inputs := resolveInputs inst step,
    instanceContext := inst.context, hasGuard := config.hasSideEffects,
    hasLlmClient := config.hasLlm, budget := budget, replayLlm := state.recordedLlmCalls }

/-- `_one`: run one attempt of a dispatched step. -/
def runOne (config : Config) (definition : WorkflowDefinition) (inst : WorkflowInstance)
    (budget : Option BudgetView) (candidate : String × Nat) : Code AttemptResult := do
  let step ← lift (stepOf definition candidate.1)
  let state ← lift (stepState inst candidate.1)
  let ctx := attemptContext config inst budget step state candidate
  let _ ← Code.now
  let outcome ← runAttempt config ctx step.timeoutSeconds
  let _ ← Code.now
  Code.mark (.attemptFinished candidate.1 candidate.2 outcome)
  pure { stepId := candidate.1, attempt := candidate.2, step := step, outcome := outcome }

def effectPayloads (stepId : String) (effect : EffectOutcome) : List Payload :=
  (if effect.deduplicated then []
    else [.sideEffectIntentRecorded stepId effect.effectName effect.idempotencyKey
      effect.params effect.guarantee]) ++
    [.sideEffectExecuted stepId effect.idempotencyKey effect.result effect.deduplicated]

def outcomePayload (result : AttemptResult) : Payload :=
  match result.outcome with
  | .success success =>
      .stepCompleted result.stepId result.attempt success.output success.modelUsed
  | .failure failure =>
      .stepFailed result.stepId result.attempt failure.errorType failure.errorMessage
        failure.retryable

/-- What a finished attempt adds to the log, in order. -/
def resultPayloads (result : AttemptResult) : List Payload :=
  result.outcome.llmRecordings.map (.llmCallRecorded result.stepId result.attempt) ++
    result.outcome.charges.map (fun charge =>
      .costCharged (some result.stepId) charge.amountUsd charge.model charge.tokensInput
        charge.tokensOutput) ++
    result.outcome.effects.flatMap (effectPayloads result.stepId) ++
    [outcomePayload result]

/-- `record_spend` with the charges of a wave. -/
def recordWaveSpend (config : Config) (inst : WorkflowInstance) (results : List AttemptResult) :
    Code Unit :=
  match config.budget with
  | none => pure ()
  | some _ =>
      let spent := (results.flatMap fun result =>
        result.outcome.charges.map CostEntry.amountUsd).sum
      if 0 < spent then do
        let now ← Code.now
        Code.recordSpend inst.tenantId spent now
      else
        pure ()

/-- The retry an attempt has earned, if it failed retryably within its budget. -/
def retryPayload (now : Time) (result : AttemptResult) : Option Payload :=
  match result.outcome with
  | .success _ => none
  | .failure failure =>
      if failure.retryable && result.attempt ≤ result.step.retryPolicy.maxRetries then
        some (.stepRetryScheduled result.stepId (result.attempt + 1)
          (now + result.step.retryPolicy.backoffDelay result.attempt))
      else
        none

/-- The reviews that the attempts of a wave asked for. -/
def reviewsOf (results : List AttemptResult) : List (String × ReviewRequest) :=
  results.filterMap fun result =>
    result.outcome.review.map fun review => (result.stepId, review)

/-- A point in time some seconds later; no deadline without a timeout. -/
def deadlineAfter (now : Time) : Option Int → Option Time
  | none => none
  | some seconds => if seconds = 0 then none else some (now + seconds)

def reviewEvent (inst : WorkflowInstance) (now : Time) (review : String × ReviewRequest) :
    Code Event := do
  let escalationId ← Code.newId
  draftEvent inst (.escalationRaised
    { escalationId := escalationId, stepId := review.1, reason := review.2.reason,
      recommendation := review.2.recommendation, confidence := review.2.confidence,
      options := review.2.options, deadline := deadlineAfter now review.2.timeoutSeconds,
      autoAction := review.2.autoAction })

/-- `_raise_review_escalations`. -/
def raiseReviewEscalations (definition : WorkflowDefinition) (inst : WorkflowInstance)
    (reviews : List (String × ReviewRequest)) : Code WorkflowInstance := do
  let now ← Code.now
  let raised ← Program.traverse (reviewEvent inst now) reviews
  let parked ← draftEvent inst (.instanceStatusChanged .running .waitingApproval
    (some ("review requested: " ++ String.intercalate ", " (reviews.map Prod.fst))))
  append definition inst (raised ++ [parked])

/-- The second half of `_dispatch_wave`: what the finished attempts lead to. -/
def settleWave (config : Config) (definition : WorkflowDefinition) (inst : WorkflowInstance)
    (results : List AttemptResult) : Code WorkflowInstance := do
  let drafts ← Program.traverse (draftEvent inst) (results.flatMap resultPayloads)
  let inst ← append definition inst drafts
  recordWaveSpend config inst results
  let now ← Code.now
  let retries ← Program.traverse (draftEvent inst) (results.filterMap (retryPayload now))
  let inst ← append definition inst retries
  let reviews := reviewsOf results
  if reviews.isEmpty then pure inst
  else raiseReviewEscalations definition inst reviews

/-- `_dispatch_wave`. -/
def dispatchWave (config : Config) (definition : WorkflowDefinition) (lease : Lease)
    (inst : WorkflowInstance) (dispatch : List (String × Nat)) : Code WorkflowInstance := do
  let started ← Program.traverse (startEvents inst lease.workerId) dispatch
  let inst ← append definition inst started.flatten
  let budget ← budgetView config inst
  let results ← Program.gather (runOne config definition inst budget) dispatch
  settleWave config definition inst results

/-! ## Terminal transitions -/

/-- The outputs of the completed steps, by step. -/
def completedOutputs (inst : WorkflowInstance) : JsonDict :=
  Dict.ofList (inst.stepStates.entries.filterMap fun entry =>
    if entry.2.status = .completed then
      entry.2.output.map fun output => (entry.1, JsonDict.toJson output)
    else
      none)

/-- `_complete`. -/
def complete (definition : WorkflowDefinition) (inst : WorkflowInstance) : Code DriveReport := do
  let finished ← draftEvent inst (.instanceStatusChanged .running .completed none)
  let completed ← draftEvent inst (.instanceCompleted (completedOutputs inst))
  let _ ← append definition inst [finished, completed]
  pure { instanceId := inst.instanceId, result := .completed }

/-- Raise one escalation and park the instance: the common part of the
escalations of the failure policy. -/
def escalate (definition : WorkflowDefinition) (inst : WorkflowInstance) (stepId reason : String)
    (recommendation parkReason : String) : Code DriveReport := do
  let escalationId ← Code.newId
  let raised ← draftEvent inst (.escalationRaised
    { escalationId := escalationId, stepId := stepId, reason := reason,
      recommendation := recommendation, autoAction := "abort" })
  let parked ← draftEvent inst
    (.instanceStatusChanged .running .waitingApproval (some parkReason))
  let _ ← append definition inst [raised, parked]
  pure { instanceId := inst.instanceId, result := .waitingApproval }

/-- `_escalate_max_retries`. -/
def escalateMaxRetries (definition : WorkflowDefinition) (inst : WorkflowInstance)
    (stepId reason : String) : Code DriveReport :=
  let detail := (inst.stepStates.get? stepId).elim reason fun state =>
    state.errorMessage.getD "None"
  escalate definition inst stepId "max_retries"
    ("step " ++ stepId ++ " exhausted its retries: " ++ detail ++
      ". resolve with retry / skip / abort.") reason

/-- `_escalate_cost_threshold`. -/
def escalateCostThreshold (definition : WorkflowDefinition) (inst : WorkflowInstance)
    (stepId : String) : Code DriveReport :=
  escalate definition inst stepId "cost_threshold"
    "raise the workflow / tenant budget, then resume" "budget exceeded (pre-flight)"

/-- `_escalate_compensation_failure`. -/
def escalateCompensationFailure (definition : WorkflowDefinition) (inst : WorkflowInstance)
    (detail : String) : Code DriveReport :=
  escalate definition inst "" "compensation_failed" detail "compensation failed — needs a human"

/-- Completed steps with a compensation action. -/
def stepsToCompensate (inst : WorkflowInstance) :
    List WorkflowStep → Except Exn (List WorkflowStep)
  | [] => pure []
  | step :: rest =>
      if truthy step.compensationAction then do
        let state ← stepState inst step.stepId
        let others ← stepsToCompensate inst rest
        pure (if state.status = .completed then step :: others else others)
      else
        stepsToCompensate inst rest

/-- The context of a compensation handler. -/
abbrev compensationContext (config : Config) (inst : WorkflowInstance) (step : WorkflowStep)
    (state : StepState) : StepContext :=
  { instanceId := inst.instanceId, tenantId := inst.tenantId, stepId := step.stepId,
    agentType := step.compensationAction.getD "", attempt := 1,
    inputs := Dict.ofList [("output", JsonDict.toJson (state.output.getD Dict.empty))],
    instanceContext := inst.context, hasGuard := config.hasSideEffects, hasLlmClient := false }

/-- `_run_step_compensation`. -/
def runStepCompensation (config : Config) (inst : WorkflowInstance) (step : WorkflowStep) :
    Code Unit := do
  let state ← lift (stepState inst step.stepId)
  let ctx := compensationContext config inst step state
  match ← runAttempt config ctx step.timeoutSeconds with
  | .success _ => pure ()
  | .failure failure => .raise (.compensationError failure.errorMessage)

/-- Run the compensation handlers in order; the text of the first failure. -/
def compensateSteps (config : Config) (inst : WorkflowInstance) :
    List WorkflowStep → Code (Option String)
  | [] => pure none
  | step :: rest => do
      match ← (runStepCompensation config inst step).settle with
      | .ok _ => compensateSteps config inst rest
      | .error failure =>
          if failure.isException then
            pure (some ("compensation for step " ++ step.stepId ++ " failed: " ++ failure.message))
          else
            .raise failure

/-- Undo the side effects of an instance: the effects undone, or the text of a
failed compensation. -/
def undoSideEffects (config : Config) (inst : WorkflowInstance) :
    Code (Except String (List EffectOutcome)) :=
  if config.hasSideEffects then do
    match ← Code.compensateInstance inst.instanceId inst.tenantId with
    | .ok undone => pure (.ok undone)
    | .error failure =>
        if failure.exnClass = .compensation then pure (.error failure.message)
        else .raise failure
  else
    pure (.ok [])

def rollbackPayloads (undone : List EffectOutcome) (steps : List WorkflowStep)
    (reason : String) : List Payload :=
  undone.map (fun effect =>
      .sideEffectCompensated effect.stepId effect.idempotencyKey effect.result) ++
    steps.map (fun step => .stepCompensated step.stepId (step.compensationAction.getD "")) ++
    [.instanceStatusChanged .running .rolledBack (some reason)]

/-- `_rollback`. -/
def rollback (config : Config) (definition : WorkflowDefinition) (inst : WorkflowInstance)
    (reason : String) : Code DriveReport := do
  match ← undoSideEffects config inst with
  | .error detail => escalateCompensationFailure definition inst detail
  | .ok undone => do
      let steps ← lift (stepsToCompensate inst definition.steps.reverse)
      match ← compensateSteps config inst steps with
      | some detail => escalateCompensationFailure definition inst detail
      | none => do
          let drafts ← Program.traverse (draftEvent inst) (rollbackPayloads undone steps reason)
          let _ ← append definition inst drafts
          pure { instanceId := inst.instanceId, result := .rolledBack }

/-- `DeadLetterService.record`. -/
def deadLetterOf (inst : WorkflowInstance) (stepId reason : String) : DeadLetter :=
  let last := inst.errorHistory.getLast?
  { instanceId := inst.instanceId, tenantId := inst.tenantId, stepId := some stepId,
    reason := reason, errorType := last.map ErrorRecord.errorType,
    errorMessage := last.map ErrorRecord.errorMessage, atVersion := inst.version }

/-- `_apply_failure_policy`. -/
def applyFailurePolicy (config : Config) (definition : WorkflowDefinition)
    (inst : WorkflowInstance) (failure : String × String) : Code DriveReport := do
  let (stepId, reason) := failure
  Code.mark (.policyApplied stepId)
  if (inst.stepStates.get? stepId).any fun state =>
      state.errorType = some "BudgetExceededError" then
    escalateCostThreshold definition inst stepId
  else
    match definition.onFailure with
    | .escalate => escalateMaxRetries definition inst stepId reason
    | .rollback => rollback config definition inst reason
    | .deadLetter => do
        let inst ← transition definition inst .running .deadLettered (some reason)
        lift (← Code.recordDeadLetter (deadLetterOf inst stepId reason))
        pure { instanceId := inst.instanceId, result := .deadLettered }
    | .pause => do
        let _ ← transition definition inst .running .paused (some reason)
        pure { instanceId := inst.instanceId, result := .paused }

/-! ## Approvals and budget -/

def approvalEvents (definition : WorkflowDefinition) (inst : WorkflowInstance) (now : Time)
    (stepId : String) : Code (List Event) := do
  let step ← lift (stepOf definition stepId)
  let readied ← readyEvents inst stepId
  let escalationId ← Code.newId
  let raised ← draftEvent inst (.escalationRaised
    { escalationId := escalationId, stepId := stepId, reason := "explicit_approval",
      deadline := deadlineAfter now (step.approvalTimeoutSeconds.map Int.ofNat),
      autoAction := step.approvalAutoAction.value })
  pure (readied ++ [raised])

/-- `_escalate_for_approval`. -/
def escalateForApproval (definition : WorkflowDefinition) (inst : WorkflowInstance)
    (stepIds : List String) : Code DriveReport := do
  let now ← Code.now
  let raised ← Program.traverse (approvalEvents definition inst now) stepIds
  let parked ← draftEvent inst (.instanceStatusChanged .running .waitingApproval
    (some ("approval required: " ++ String.intercalate ", " stepIds)))
  let _ ← append definition inst (raised.flatten ++ [parked])
  pure { instanceId := inst.instanceId, result := .waitingApproval }

/-- `_block_on_budget`. -/
def blockOnBudget (definition : WorkflowDefinition) (inst : WorkflowInstance)
    (stepId : String) : Code DriveReport := do
  let exceeded ← draftEvent inst
    (.budgetExceeded stepId 0 (inst.remainingBudgetUsd.getD 0) .workflow)
  let paused ← draftEvent inst
    (.instanceStatusChanged .running .paused (some "budget exhausted"))
  let _ ← append definition inst [exceeded, paused]
  pure { instanceId := inst.instanceId, result := .paused }

/-! ## Main loop -/

/-- What an iteration of the loop ends in: a report, or another iteration. -/
inductive Turn
  | report (report : DriveReport)
  | again (inst : WorkflowInstance)

/-- Follow a plan, in the order in which `_run` looks at its parts. -/
def followPlan (config : Config) (definition : WorkflowDefinition) (lease : Lease)
    (inst : WorkflowInstance) (plan : Plan) : Code Turn :=
  match plan.budgetBlockedStep with
  | some stepId => .report <$> blockOnBudget definition inst stepId
  | none =>
      if !plan.approvalNeeded.isEmpty then
        .report <$> escalateForApproval definition inst plan.approvalNeeded
      else
        match plan.terminalFailure with
        | some failure => .report <$> applyFailurePolicy config definition inst failure
        | none =>
            if !plan.dispatch.isEmpty then
              .again <$> dispatchWave config definition lease inst plan.dispatch
            else if plan.allSettled then
              .report <$> complete definition inst
            else
              match plan.retryWakeup with
              | some wakeup => do
                  let inst ← transition definition inst .running .retrying none (some wakeup)
                  pure (.report { instanceId := inst.instanceId, result := .parked,
                                  nextWakeupAt := some wakeup })
              | none => pure (.report { instanceId := inst.instanceId, result := .idle })

/-- One iteration of `_run`. -/
def runTurn (config : Config) (definition : WorkflowDefinition) (lease : Lease)
    (inst : WorkflowInstance) : Code Turn :=
  let ended (result : DriveResult) : Code Turn :=
    pure (.report { instanceId := inst.instanceId, result := result })
  match inst.status with
  | .completed => ended .completed
  | .rolledBack => ended .rolledBack
  | .paused => ended .paused
  | .deadLettered => ended .deadLettered
  | .waitingApproval => ended .waitingApproval
  | .failed => ended .paused
  | .pending => .again <$> transition definition inst .pending .running
  | .retrying => .again <$> transition definition inst .retrying .running
  | .running => do
      let now ← Code.now
      let plan ← lift (plan inst definition now)
      followPlan config definition lease inst plan

/-- `_run`, for at most `fuel` iterations. -/
def runLoop (config : Config) (definition : WorkflowDefinition) (lease : Lease) :
    Nat → WorkflowInstance → Code DriveReport
  | 0, inst => .raise (.runtimeError ("drive did not converge for " ++ inst.instanceId))
  | fuel + 1, inst => do
      match ← runTurn config definition lease inst with
      | .report report => pure report
      | .again inst => runLoop config definition lease fuel inst

/-- `_MAX_DRIVE_ITERATIONS`. -/
def maxDriveIterations : Nat := 1000

/-- `drive`. -/
def drive (config : Config) (lease : Lease) : Code DriveReport := do
  match ← Code.getDefinition lease.workflowId lease.workflowVersion lease.tenantId with
  | none => .raise (.configurationError
      ("definition " ++ lease.workflowId ++ " v" ++ lease.workflowVersion ++ " missing"))
  | some definition => do
      match ← lift (← Code.getInstance lease.instanceId lease.tenantId (some definition)) with
      | none => pure { instanceId := lease.instanceId, result := .idle }
      | some inst =>
          Program.attempt
            (do
              let inst ← recoverInFlight definition inst
              runLoop config definition lease maxDriveIterations inst)
            fun failure =>
              if failure.exnClass = .conflict then
                pure { instanceId := lease.instanceId, result := .leaseLost }
              else
                .raise failure

end AgentForge.Engine
