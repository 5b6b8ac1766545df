import AgentForge.Protocol.State

/-!
# Legal events

The rules of the engine, one event at a time: what holds of the state when one
of its writers adds an event to the log.  `LegalBatch` says it of a batch, as
far as the fold takes it.
-/

namespace AgentForge.Protocol

open Domain Events

/-! ## What a log says about a step -/

/-- The event starts an attempt of the step. -/
def starts : Payload → String → Prop
  | .stepStarted stepId _ _ _, other => stepId = other
  | _, _ => False

/-- The event closes an escalation of the step in favour of running it. -/
def approves : Payload → String → Prop
  | .escalationResolved _ stepId resolution _ _, other =>
      stepId = other ∧ (resolution = .approve ∨ resolution = .modify)
  | .escalationTimedOut _ stepId autoAction, other => stepId = other ∧ autoAction = .approve
  | _, _ => False

/-- The event completes the step. -/
def completes : Payload → String → Bool
  | .stepCompleted stepId _ _ _, other => stepId = other
  | _, _ => false

/-- The event reports an attempt of the step as failed. -/
def fails : Payload → String → Bool
  | .stepFailed stepId _ _ _ _, other => stepId = other
  | _, _ => false

/-- The event charges a model call of the step. -/
def bills : Payload → String → Bool
  | .costCharged (some stepId) _ _ _ _, other => stepId = other
  | _, _ => false

/-- The event reports the end of an attempt of a step, or what it has cost. -/
def ends : Payload → Bool
  | .stepCompleted _ _ _ _ => true
  | .stepFailed _ _ _ _ _ => true
  | .costCharged _ _ _ _ _ => true
  | _ => false

theorem not_bills_of_not_ends {payload : Payload} (open_ : ends payload = false)
    (stepId : String) : bills payload stepId = false := by
  cases payload with
  | costCharged => cases open_
  | _ => rfl

theorem ends_of_fails {payload : Payload} {stepId : String} (failed : fails payload stepId = true) :
    ends payload = true := by
  cases payload with
  | stepFailed => rfl
  | _ => cases failed

/-- The event compensates a step. -/
def compensates : Payload → Bool
  | .stepCompensated _ _ => true
  | _ => false

namespace State

variable (state : State)

def Started (stepId : String) : Prop :=
  ∃ event ∈ state.log, starts event.payload stepId

def Approved (stepId : String) : Prop :=
  ∃ event ∈ state.log, approves event.payload stepId

def completions (stepId : String) : Nat :=
  state.log.countP fun event => completes event.payload stepId

/-- The step has an unresolved escalation. -/
def Open (stepId : String) : Prop :=
  ∃ ref ∈ state.escalations, ref.stepId = stepId ∧ ref.resolved = false

/-- The step has a resolved escalation. -/
def Granted (stepId : String) : Prop :=
  ∃ ref ∈ state.escalations, ref.stepId = stepId ∧ ref.resolved = true

def Done (stepId : String) : Prop :=
  (state.steps stepId).status = .completed ∨ (state.steps stepId).status = .skipped

/-- No escalation has this identifier yet. -/
def Fresh (escalationId : String) : Prop :=
  escalationId ∉ state.escalations.map EscalationRef.escalationId

/-- How many of the listed steps are running. -/
def runningCount (stepIds : List String) : Nat :=
  stepIds.countP fun stepId => (state.steps stepId).status = .running

/-- The outputs of the completed steps among the listed ones, by step. -/
def OutputsOf (outputs : JsonDict) : Prop :=
  ∀ stepId value, outputs.get? stepId = some value ↔
    ∃ output, (state.steps stepId).status = .completed ∧
      (state.steps stepId).output = some output ∧ value = output.toJson

end State

/-! ## The rules -/

/-- The circumstances of a run: the definition, whether the clock never goes
back, whether dead letters may be requeued, and whether operators may pause,
resume and abort. -/
structure Rules where
  definition : WorkflowDefinition
  monotone : Prop
  requeues : Prop
  operators : Prop

/-- A requeue may have made the step runnable although an escalation of it was
still open. -/
def Loose (rules : Rules) (state : State) (stepId : String) : Prop :=
  rules.requeues ∧ state.Started stepId

/-- Events that a writer may add to the log in a state at a point in time. -/
inductive Legal (rules : Rules) (state : State) (time : Time) : Payload → Prop
  | recovered {stepId : String} {reason : Option String} :
      stepId ∈ rules.definition.stepIds →
      (state.steps stepId).status = .running →
      Legal rules state time (.stepStatusChanged stepId .running .ready reason)
  | readied {step : WorkflowStep} {reason : Option String} :
      step ∈ rules.definition.steps →
      (state.steps step.stepId).status = .pending →
      state.status = .running →
      Legal rules state time (.stepStatusChanged step.stepId .pending .ready reason)
  | started {step : WorkflowStep} {attempt : Nat} {workerId : String}
      {modelSelected : Option String} :
      step ∈ rules.definition.steps →
      state.status = .running →
      (¬ rules.requeues → ∀ dependency ∈ step.dependencies, state.Done dependency) →
      ((state.steps step.stepId).status = .ready ∨
        (state.steps step.stepId).status = .failed ∧
          ∃ retryAt, (state.steps step.stepId).nextRetryAt = some retryAt ∧
            (rules.monotone → retryAt ≤ time)) →
      attempt = (state.steps step.stepId).attempts + 1 →
      (∀ remaining, state.remaining = some remaining → 0 < remaining) →
      state.runningCount rules.definition.stepIds < rules.definition.maxConcurrentSteps →
      ¬ state.Open step.stepId →
      (step.requiresApproval = true → state.Granted step.stepId) →
      Legal rules state time (.stepStarted step.stepId attempt workerId modelSelected)
  | llmRecorded {stepId : String} {attempt : Nat} {recording : LLMRecording} :
      stepId ∈ rules.definition.stepIds →
      (state.steps stepId).status = .running →
      attempt = (state.steps stepId).attempts →
      Legal rules state time (.llmCallRecorded stepId attempt recording)
  | charged {stepId : String} {amountUsd : Rat} {model : Option String}
      {tokensInput tokensOutput : Int} :
      stepId ∈ rules.definition.stepIds →
      (state.steps stepId).status = .running →
      Legal rules state time (.costCharged (some stepId) amountUsd model tokensInput tokensOutput)
  | effectIntended {stepId effectName key : String} {params : JsonDict} {guarantee : Guarantee} :
      stepId ∈ rules.definition.stepIds →
      (state.steps stepId).status = .running →
      Legal rules state time (.sideEffectIntentRecorded stepId effectName key params guarantee)
  | effectExecuted {stepId key : String} {result : JsonDict} {deduplicated : Bool} :
      stepId ∈ rules.definition.stepIds →
      (state.steps stepId).status = .running →
      Legal rules state time (.sideEffectExecuted stepId key result deduplicated)
  | completed {stepId : String} {attempt : Nat} {output : JsonDict} {modelUsed : Option String} :
      stepId ∈ rules.definition.stepIds →
      (state.steps stepId).status = .running →
      attempt = (state.steps stepId).attempts →
      Legal rules state time (.stepCompleted stepId attempt output modelUsed)
  | failed {stepId : String} {attempt : Nat} {errorType errorMessage : String}
      {retryable : Bool} :
      stepId ∈ rules.definition.stepIds →
      (state.steps stepId).status = .running →
      attempt = (state.steps stepId).attempts →
      Legal rules state time (.stepFailed stepId attempt errorType errorMessage retryable)
  | retryScheduled {stepId : String} {nextAttempt : Nat} {runAt : Time} :
      stepId ∈ rules.definition.stepIds →
      (state.steps stepId).status = .failed →
      Legal rules state time (.stepRetryScheduled stepId nextAttempt runAt)
  | approvalRaised {step : WorkflowStep} {escalation : Escalation} :
      step ∈ rules.definition.steps →
      escalation.stepId = step.stepId →
      step.requiresApproval = true →
      ((state.steps step.stepId).status = .ready ∨ (state.steps step.stepId).status = .failed) →
      ¬ state.Open step.stepId →
      ¬ state.Granted step.stepId →
      state.Fresh escalation.escalationId →
      state.status = .running →
      Legal rules state time (.escalationRaised escalation)
  | reviewRaised {escalation : Escalation} :
      escalation.stepId ∈ rules.definition.stepIds →
      (state.steps escalation.stepId).status = .completed →
      (¬ state.Open escalation.stepId ∨ Loose rules state escalation.stepId) →
      state.Fresh escalation.escalationId →
      state.status = .running →
      (¬ rules.requeues → ∀ step ∈ rules.definition.steps,
        escalation.stepId ∈ step.dependencies → ¬ state.Started step.stepId) →
      Legal rules state time (.escalationRaised escalation)
  | policyRaised {escalation : Escalation} :
      escalation.stepId ∈ rules.definition.stepIds →
      (state.steps escalation.stepId).status = .failed →
      (state.steps escalation.stepId).nextRetryAt = none →
      (¬ state.Open escalation.stepId ∨ Loose rules state escalation.stepId) →
      state.Fresh escalation.escalationId →
      state.status = .running →
      Legal rules state time (.escalationRaised escalation)
  | compensationRaised {escalation : Escalation} :
      escalation.stepId = "" →
      state.Fresh escalation.escalationId →
      state.status = .running →
      Legal rules state time (.escalationRaised escalation)
  | moved {toStatus : WorkflowStatus} {reason : Option String} :
      workflowTransitionAllowed state.status toStatus = true →
      toStatus ≠ .completed →
      Legal rules state time (.instanceStatusChanged state.status toStatus reason)
  | finished {reason : Option String} :
      state.status = .running →
      (∀ stepId ∈ rules.definition.stepIds, state.Done stepId) →
      Legal rules state time (.instanceStatusChanged .running .completed reason)
  | outputsRecorded {outputs : JsonDict} :
      state.status = .completed →
      (∀ stepId ∈ rules.definition.stepIds, state.Done stepId) →
      state.OutputsOf outputs →
      Legal rules state time (.instanceCompleted outputs)
  | resolved {ref : EscalationRef} {resolution : Resolution} {resolvedBy : String}
      {modifiedContext : Option JsonDict} :
      ref ∈ state.escalations →
      ref.resolved = false →
      state.status = .waitingApproval →
      Legal rules state time
        (.escalationResolved ref.escalationId ref.stepId resolution resolvedBy modifiedContext)
  | timedOut {ref : EscalationRef} {autoAction : Resolution} :
      ref ∈ state.escalations →
      ref.resolved = false →
      state.status = .waitingApproval →
      Legal rules state time (.escalationTimedOut ref.escalationId ref.stepId autoAction)
  | released {stepId : String} {reason : Option String} :
      stepId ∈ rules.definition.stepIds →
      ((state.steps stepId).status = .waitingApproval ∨ Loose rules state stepId) →
      (¬ state.Open stepId ∨ Loose rules state stepId) →
      state.Approved stepId →
      Legal rules state time (.stepStatusChanged stepId (state.steps stepId).status
        (if (state.steps stepId).output.isSome then .completed else .ready) reason)
  | skipped {stepId : String} {reason : Option String} :
      stepId ∈ rules.definition.stepIds →
      ((state.steps stepId).status = .waitingApproval ∨ Loose rules state stepId) →
      (¬ state.Open stepId ∨ Loose rules state stepId) →
      Legal rules state time
        (.stepStatusChanged stepId (state.steps stepId).status .skipped reason)
  | budgetAdjusted {newLimitUsd : Option Rat} {adjustedBy : String} {reason : Option String} :
      Legal rules state time (.workflowBudgetAdjusted newLimitUsd adjustedBy reason)
  | budgetExceeded {stepId : String} {projected remaining : Rat} {scope : BudgetScope} :
      Legal rules state time (.budgetExceeded stepId projected remaining scope)
  | effectCompensated {stepId key : String} {result : JsonDict} :
      Legal rules state time (.sideEffectCompensated stepId key result)
  | compensated {stepId : String} {action : String} :
      stepId ∈ rules.definition.stepIds →
      (state.steps stepId).status = .completed →
      state.status = .running →
      Legal rules state time (.stepCompensated stepId action)
  | requeued {stepId : String} {requeuedBy : String} {dlqId : Option Nat} :
      rules.requeues →
      stepId ∈ rules.definition.stepIds →
      state.Started stepId →
      state.status = .deadLettered →
      Legal rules state time (.workflowRequeued (some stepId) requeuedBy dlqId)

variable {rules : Rules}

/-- A move from a status that is known otherwise. -/
theorem Legal.moved_from {state : State} {time : Time} {source target : WorkflowStatus}
    {reason : Option String} (found : state.status = source)
    (allowed : workflowTransitionAllowed source target = true) (unfinished : target ≠ .completed) :
    Legal rules state time (.instanceStatusChanged source target reason) := by
  subst found
  exact .moved allowed unfinished

/-- A batch whose events are legal one after the other, as far as the fold takes
them. -/
def LegalBatch (rules : Rules) : State → List Event → Prop
  | _, [] => True
  | state, event :: rest =>
      Legal rules state event.occurredAt event.payload ∧
        (state.Accepts event.payload → LegalBatch rules (state.after event) rest)

/-- Logs that legal, accepted events build up from a genesis event. -/
inductive Run (rules : Rules) : List Event → Prop
  | genesis {event : Event} : event.isGenesis = true → Run rules [event]
  | step {log : List Event} {event : Event} :
      Run rules log →
      Legal rules (replay log) event.occurredAt event.payload →
      (replay log).Accepts event.payload →
      Run rules (log ++ [event])

/-- A legal, accepted batch continues a run. -/
theorem Run.batch {log batch : List Event} (run : Run rules log)
    (legal : LegalBatch rules (replay log) batch) (accepted : (replay log).AcceptsAll batch) :
    Run rules (log ++ batch) := by
  induction batch generalizing log with
  | nil => simpa using run
  | cons event rest ih =>
    rw [List.append_cons]
    apply ih (run.step legal.1 accepted.1)
    · rw [replay_concat]
      exact legal.2 accepted.1
    · rw [replay_concat]
      exact accepted.2

/-- A run begins with a genesis event. -/
theorem Run.before_ne_nil {log before after : List Event} {event : Event} (run : Run rules log)
    (split : log = before ++ event :: after) (later : event.isGenesis = false) : before ≠ [] := by
  rintro rfl
  have first : ∀ first rest, log = first :: rest → first.isGenesis = true := by
    clear split later
    induction run with
    | genesis isGenesis =>
      rintro first rest same
      cases same
      exact isGenesis
    | @step log last run _ _ ih =>
      intro first rest same
      cases shape : log with
      | nil =>
        exfalso
        rw [shape] at run
        generalize empty : ([] : List Event) = none at run
        cases run <;> simp at empty
      | cons head tail =>
        rw [shape] at same
        cases same
        exact ih _ _ shape
  rw [first event after split] at later
  cases later

/-- Every event of a run but the first was legal when it was added. -/
theorem Run.legal_of_split {log : List Event} (run : Run rules log) :
    ∀ before event after, log = before ++ event :: after → before ≠ [] →
      Run rules before ∧ Legal rules (replay before) event.occurredAt event.payload := by
  induction run with
  | genesis _ =>
    intro before event after split nonempty
    obtain ⟨first, rest, rfl⟩ := List.exists_cons_of_ne_nil nonempty
    simp at split
  | @step log last run legal _ ih =>
    intro before event after split nonempty
    rcases List.eq_nil_or_concat after with rfl | ⟨initial, final, rfl⟩
    · obtain ⟨rfl, same⟩ := List.append_inj' split rfl
      cases same
      exact ⟨run, legal⟩
    · have split' : log ++ [last] = (before ++ event :: initial) ++ [final] := by
        simpa using split
      exact ih before event initial (List.append_inj' split' rfl).1 nonempty

end AgentForge.Protocol
