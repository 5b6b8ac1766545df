import AgentForge.Engine.Entries

/-!
# Drives that tell what was done

The driver keeps of an attempt what its outcome hands over.  Here the same code
also returns the contexts of all the attempts it has run, those of compensation
handlers included, with the ledgers they have at their end.  Leaving the ledgers
out again gives the driver back.
-/

namespace AgentForge.Engine

open Domain Events Library

/-- What was done through the context of one attempt. -/
structure Deed where
  stepId : String
  compensating : Bool
  ledger : ContextState

/-- Code that has run no attempt. -/
def untold {α : Type} (code : Code α) : Code (α × List Deed) :=
  (fun value => (value, [])) <$> code

@[simp]
theorem map_fst_untold {α : Type} (code : Code α) : Prod.fst <$> untold code = code := by
  unfold untold
  rw [Program.map_map]
  exact Program.map_id code

/-! ## Attempts -/

/-- `run_attempt`, with the ledger of the context. -/
def toldAttempt (config : Config) (ctx : StepContext) (timeoutSeconds : Nat) :
    Code (StepOutcome × ContextState) :=
  match config.registry ctx.agentType with
  | none => .raise (.configurationError
      ("no step runner registered for agent_type '" ++ ctx.agentType ++ "'"))
  | some runner => do
      let (ended, state) ← interpret config ctx timeoutSeconds (runner ctx) {}
      let outcome ← outcomeOf timeoutSeconds ended state
      pure (outcome, state)

variable (config : Config)

include config

theorem map_fst_toldAttempt (ctx : StepContext) (timeoutSeconds : Nat) :
    Prod.fst <$> toldAttempt config ctx timeoutSeconds = runAttempt config ctx timeoutSeconds := by
  unfold toldAttempt runAttempt
  cases config.registry ctx.agentType with
  | none => rfl
  | some runner =>
    simp only [Program.map_bind]
    exact congrArg (interpret config ctx timeoutSeconds (runner ctx) {} >>= ·)
      (funext fun _ => Program.map_id _)

/-- `_one`. -/
def toldOne (config : Config) (definition : WorkflowDefinition) (inst : WorkflowInstance)
    (budget : Option BudgetView) (candidate : String × Nat) : Code (AttemptResult × Deed) := do
  let step ← lift (stepOf definition candidate.1)
  let state ← lift (stepState inst candidate.1)
  let ctx := attemptContext config inst budget step state candidate
  let _ ← Code.now
  let (outcome, ledger) ← toldAttempt config ctx step.timeoutSeconds
  let _ ← Code.now
  Code.mark (.attemptFinished candidate.1 candidate.2 outcome)
  pure ({ stepId := candidate.1, attempt := candidate.2, step := step, outcome := outcome },
    { stepId := candidate.1, compensating := false, ledger := ledger })

variable (definition : WorkflowDefinition)

include definition

variable (inst : WorkflowInstance)

include inst

theorem map_fst_toldOne (budget : Option BudgetView) (candidate : String × Nat) :
    Prod.fst <$> toldOne config definition inst budget candidate =
      runOne config definition inst budget candidate := by
  simp only [toldOne, runOne, Program.map_bind, ← map_fst_toldAttempt, Program.bind_map]
  rfl

/-- `_dispatch_wave`. -/
def toldWave (config : Config) (definition : WorkflowDefinition) (lease : Lease)
    (inst : WorkflowInstance) (dispatch : List (String × Nat)) :
    Code (WorkflowInstance × List Deed) := do
  let started ← Program.traverse (startEvents inst lease.workerId) dispatch
  let inst ← append definition inst started.flatten
  let budget ← budgetView config inst
  let told ← Program.gather (toldOne config definition inst budget) dispatch
  let inst ← settleWave config definition inst (told.map Prod.fst)
  pure (inst, told.map Prod.snd)

omit inst in
theorem map_fst_toldWave (lease : Lease) (inst : WorkflowInstance)
    (dispatch : List (String × Nat)) :
    Prod.fst <$> toldWave config definition lease inst dispatch =
      dispatchWave config definition lease inst dispatch := by
  have results (inst : WorkflowInstance) (budget : Option BudgetView) :
      Program.gather (runOne config definition inst budget) dispatch =
        List.map Prod.fst <$> Program.gather (toldOne config definition inst budget) dispatch := by
    rw [Program.map_gather]
    simp only [map_fst_toldOne]
  simp only [toldWave, dispatchWave, Program.map_bind, results, Program.bind_map]
  have settled (inst : WorkflowInstance) (told : List (AttemptResult × Deed)) :
      (settleWave config definition inst (told.map Prod.fst) >>= fun inst =>
        Prod.fst <$> (pure (inst, told.map Prod.snd) : Code (WorkflowInstance × List Deed))) =
        settleWave config definition inst (told.map Prod.fst) :=
    Program.map_id _
  simp only [settled]

/-! ## Compensations -/

/-- The attempt of `_run_step_compensation`. -/
def toldCompensation (config : Config) (inst : WorkflowInstance) (step : WorkflowStep) :
    Code (StepOutcome × Deed) := do
  let state ← lift (stepState inst step.stepId)
  let ctx := compensationContext config inst step state
  let (outcome, ledger) ← toldAttempt config ctx step.timeoutSeconds
  pure (outcome, { stepId := step.stepId, compensating := true, ledger := ledger })

/-- What `_run_step_compensation` makes of the outcome. -/
def checkCompensation : StepOutcome → Except Exn Unit
  | .success _ => .ok ()
  | .failure failure => .error (.compensationError failure.errorMessage)

omit definition in
theorem runStepCompensation_eq (step : WorkflowStep) : runStepCompensation config inst step =
      toldCompensation config inst step >>= fun told => lift (checkCompensation told.1) := by
  simp only [runStepCompensation, toldCompensation, ← map_fst_toldAttempt, Program.bind_map,
    Program.bind_assoc]
  congr 1
  funext state
  congr 1
  funext told
  obtain ⟨outcome, ledger⟩ := told
  cases outcome <;> rfl

omit inst in
omit definition in
omit config in
private theorem settle_bind_lift {α β : Type} (code : Code α) (check : α → Except Exn β) :
    (code >>= fun value => lift (check value)).settle =
      (fun outcome => outcome.bind check) <$> code.settle := by
  induction code with
  | done value =>
    change (lift (check value)).settle = .done (check value)
    cases check value <;> rfl
  | raise failure => rfl
  | perform op rest ih => exact congrArg (Program.perform op) (funext ih)

/-- Run the compensation handlers in order. -/
def toldCompensations (config : Config) (inst : WorkflowInstance) :
    List WorkflowStep → Code (Option String × List Deed)
  | [] => pure (none, [])
  | step :: rest => do
      let failed (failure : Exn) : String :=
        "compensation for step " ++ step.stepId ++ " failed: " ++ failure.message
      match ← (toldCompensation config inst step).settle with
      | .ok (.success _, deed) => do
          let (text, deeds) ← toldCompensations config inst rest
          pure (text, deed :: deeds)
      | .ok (.failure failure, deed) =>
          pure (some (failed (.compensationError failure.errorMessage)), [deed])
      -- No handler has run, unless it was cancelled, which is raised on.
      | .error failure =>
          if failure.isException then pure (some (failed failure), []) else .raise failure

omit definition in
theorem map_fst_toldCompensations (steps : List WorkflowStep) :
    Prod.fst <$> toldCompensations config inst steps = compensateSteps config inst steps := by
  induction steps with
  | nil => rfl
  | cons step rest ih =>
    simp only [toldCompensations, compensateSteps, runStepCompensation_eq, settle_bind_lift,
      Program.map_bind, Program.bind_map]
    congr 1
    funext outcome
    rcases outcome with failure | ⟨success | failure, deed⟩
    · cases exceptional : failure.isException <;> simp [exceptional, Except.bind] <;> rfl
    · change Prod.fst <$> (toldCompensations config inst rest >>= _) = _
      rw [Program.map_bind]
      exact ih
    · rfl

/-! ## Failure policies -/

/-- `_rollback`. -/
def toldRollback (config : Config) (definition : WorkflowDefinition) (inst : WorkflowInstance)
    (reason : String) : Code (DriveReport × List Deed) := do
  match ← undoSideEffects config inst with
  | .error detail => untold (escalateCompensationFailure definition inst detail)
  | .ok undone => do
      let steps ← lift (stepsToCompensate inst definition.steps.reverse)
      let (failed, deeds) ← toldCompensations config inst steps
      (fun report => (report, deeds)) <$> match failed with
        | some detail => escalateCompensationFailure definition inst detail
        | none => do
            let drafts ← Program.traverse (draftEvent inst) (rollbackPayloads undone steps reason)
            let _ ← append definition inst drafts
            pure { instanceId := inst.instanceId, result := .rolledBack }

theorem map_fst_toldRollback (reason : String) :
    Prod.fst <$> toldRollback config definition inst reason =
      rollback config definition inst reason := by
  simp only [toldRollback, rollback, Program.map_bind, ← map_fst_toldCompensations,
    Program.bind_map]
  congr 1
  funext undone
  cases undone with
  | error detail => exact map_fst_untold _
  | ok undone =>
    simp only [Program.map_bind]
    congr 1
    funext steps
    congr 1
    funext told
    exact (Program.map_map _ _ _).trans (Program.map_id _)

/-- `_apply_failure_policy`. -/
def toldFailurePolicy (config : Config) (definition : WorkflowDefinition)
    (inst : WorkflowInstance) (failure : String × String) : Code (DriveReport × List Deed) :=
  if definition.onFailure = .rollback ∧
      (inst.stepStates.get? failure.1).any (fun state =>
        state.errorType = some "BudgetExceededError") = false then do
    Code.mark (.policyApplied failure.1)
    toldRollback config definition inst failure.2
  else
    untold (applyFailurePolicy config definition inst failure)

theorem map_fst_toldFailurePolicy (failure : String × String) :
    Prod.fst <$> toldFailurePolicy config definition inst failure =
      applyFailurePolicy config definition inst failure := by
  unfold toldFailurePolicy
  split
  · next rolling =>
    simp only [applyFailurePolicy, Program.map_bind, map_fst_toldRollback, rolling]
    rfl
  · exact map_fst_untold _

/-! ## The loop -/

/-- Follow a plan. -/
def toldPlan (config : Config) (definition : WorkflowDefinition) (lease : Lease)
    (inst : WorkflowInstance) (plan : Plan) : Code (Turn × List Deed) :=
  if plan.budgetBlockedStep.isSome || !plan.approvalNeeded.isEmpty then
    untold (followPlan config definition lease inst plan)
  else
    match plan.terminalFailure with
    | some failure => do
        let (report, deeds) ← toldFailurePolicy config definition inst failure
        pure (.report report, deeds)
    | none =>
        if plan.dispatch.isEmpty then untold (followPlan config definition lease inst plan)
        else do
          let (inst, deeds) ← toldWave config definition lease inst plan.dispatch
          pure (.again inst, deeds)

omit inst

theorem map_fst_toldPlan (lease : Lease) (inst : WorkflowInstance) (plan : Plan) :
    Prod.fst <$> toldPlan config definition lease inst plan =
      followPlan config definition lease inst plan := by
  unfold toldPlan
  split
  · exact map_fst_untold _
  · next held =>
    obtain ⟨blocked, waiting⟩ : plan.budgetBlockedStep = none ∧ plan.approvalNeeded = [] := by
      simpa using held
    cases failed : plan.terminalFailure with
    | some failure =>
      have followed : followPlan config definition lease inst plan =
          .report <$> applyFailurePolicy config definition inst failure := by
        simp [followPlan, blocked, waiting, failed]
      rw [followed, ← map_fst_toldFailurePolicy, Program.map_map, Program.map_bind]
      rfl
    | none =>
      by_cases idle : plan.dispatch.isEmpty = true
      · simp only [idle, if_true]
        exact map_fst_untold _
      · rw [followPlan_of_dispatches ⟨⟨blocked, waiting, failed⟩, by simpa using idle⟩,
          ← map_fst_toldWave, Program.map_map]
        simp only [idle, Bool.false_eq_true, if_false, Program.map_bind]
        rfl

/-- One iteration of `_run`. -/
def toldTurn (config : Config) (definition : WorkflowDefinition) (lease : Lease)
    (inst : WorkflowInstance) : Code (Turn × List Deed) :=
  if inst.status = .running then do
    let now ← Code.now
    let plan ← lift (plan inst definition now)
    toldPlan config definition lease inst plan
  else
    untold (runTurn config definition lease inst)

theorem map_fst_toldTurn (lease : Lease) (inst : WorkflowInstance) :
    Prod.fst <$> toldTurn config definition lease inst = runTurn config definition lease inst := by
  unfold toldTurn
  split
  · next running => simp only [runTurn, running, Program.map_bind, map_fst_toldPlan]
  · exact map_fst_untold _

/-- `_run`. -/
def toldLoop (config : Config) (definition : WorkflowDefinition) (lease : Lease) :
    Nat → WorkflowInstance → Code (DriveReport × List Deed)
  | 0, inst => .raise (.runtimeError ("drive did not converge for " ++ inst.instanceId))
  | fuel + 1, inst => do
      let (turn, deeds) ← toldTurn config definition lease inst
      match turn with
      | .report report => pure (report, deeds)
      | .again inst => do
          let (report, later) ← toldLoop config definition lease fuel inst
          pure (report, deeds ++ later)

theorem map_fst_toldLoop (lease : Lease) (fuel : Nat) (inst : WorkflowInstance) :
    Prod.fst <$> toldLoop config definition lease fuel inst =
      runLoop config definition lease fuel inst := by
  induction fuel generalizing inst with
  | zero => rfl
  | succ fuel ih =>
    simp only [toldLoop, runLoop, Program.map_bind, ← map_fst_toldTurn, Program.bind_map]
    congr 1
    funext told
    obtain ⟨turn, deeds⟩ := told
    cases turn with
    | report report => rfl
    | again inst =>
      simp only [Program.map_bind]
      exact ih inst

/-- `drive`, with what was done through the contexts of its attempts. -/
def toldDrive (config : Config) (lease : Lease) : Code (DriveReport × List Deed) := do
  match ← Code.getDefinition lease.workflowId lease.workflowVersion lease.tenantId with
  | none => .raise (.configurationError
      ("definition " ++ lease.workflowId ++ " v" ++ lease.workflowVersion ++ " missing"))
  | some definition => do
      match ← lift (← Code.getInstance lease.instanceId lease.tenantId (some definition)) with
      | none => pure ({ instanceId := lease.instanceId, result := .idle }, [])
      | some inst =>
          Program.attempt
            (do
              let inst ← recoverInFlight definition inst
              toldLoop config definition lease maxDriveIterations inst)
            fun failure =>
              if failure.exnClass = .conflict then
                pure ({ instanceId := lease.instanceId, result := .leaseLost }, [])
              else
                .raise failure

omit definition

/-- Leaving out what was done gives the driver back. -/
theorem map_fst_toldDrive (lease : Lease) :
    Prod.fst <$> toldDrive config lease = drive config lease := by
  simp only [toldDrive, drive, Program.map_bind]
  congr 1
  funext definition
  cases definition with
  | none => rfl
  | some definition =>
    simp only [Program.map_bind]
    congr 1
    funext response
    congr 1
    funext inst
    cases inst with
    | none => rfl
    | some inst =>
      simp only [Program.map_attempt, Program.map_bind, map_fst_toldLoop]
      congr 1
      funext failure
      split <;> rfl

end AgentForge.Engine
