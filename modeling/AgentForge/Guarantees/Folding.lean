import AgentForge.Protocol.Invariants

/-!
# What a fold keeps

Statements about `fold` alone, for any stream it accepts.  Consecutive states
respect the transition tables as long as no requeue meets a step that has no way
back to READY: the requeue handler assigns the status instead of moving it.  A
definition adds initial step states and nothing else.
-/

namespace AgentForge.Guarantees

open Domain Events Library Protocol

/-! ## Transition tables -/

/-- A step status stays or moves along `STEP_TRANSITIONS`. -/
def StepMoves (source target : StepStatus) : Prop :=
  target = source ∨ target ∈ stepTransitions source

/-- A workflow status stays or moves along `WORKFLOW_TRANSITIONS`. -/
def WorkflowMoves (source target : WorkflowStatus) : Prop :=
  target = source ∨ target ∈ workflowTransitions source

/-- The loop state of a fold after an initial part of its stream. -/
def stateAfter (definition : Option WorkflowDefinition) (base : Option WorkflowInstance)
    (prior : List Event) : Except FoldError (Option WorkflowInstance) :=
  foldFrom definition ((base.map WorkflowInstance.version).getD 0 + 1) base prior

/-- Skipped and compensated steps are as they were. -/
def StepsSettled (before after : WorkflowInstance) : Prop :=
  ∀ stepId, (before.stepOr stepId).status = .skipped ∨
      (before.stepOr stepId).status = .compensated →
    (after.stepOr stepId).status = (before.stepOr stepId).status

/-- A completed or rolled back workflow is as it was. -/
def WorkflowSettled (before after : WorkflowInstance) : Prop :=
  before.status = .completed ∨ before.status = .rolledBack → after.status = before.status

/-- The tables hold between consecutive states of a fold, and a status without a
way out is never left. -/
structure TablesEnforced (definition : Option WorkflowDefinition) (base : Option WorkflowInstance)
    (events : List Event) : Prop where
  step : ∀ prior event rest before after, events = prior ++ event :: rest →
    stateAfter definition base prior = .ok (some before) →
    stateAfter definition base (prior ++ [event]) = .ok (some after) →
    ∀ stepId, StepMoves (before.stepOr stepId).status (after.stepOr stepId).status
  workflow : ∀ prior event rest before after, events = prior ++ event :: rest →
    stateAfter definition base prior = .ok (some before) →
    stateAfter definition base (prior ++ [event]) = .ok (some after) →
    WorkflowMoves before.status after.status
  finalStep : ∀ prior middle rest before after, events = prior ++ middle ++ rest →
    stateAfter definition base prior = .ok (some before) →
    stateAfter definition base (prior ++ middle) = .ok (some after) →
    StepsSettled before after
  finalWorkflow : ∀ prior middle rest before after, events = prior ++ middle ++ rest →
    stateAfter definition base prior = .ok (some before) →
    stateAfter definition base (prior ++ middle) = .ok (some after) →
    WorkflowSettled before after

/-- Every requeue of a step finds it neither completed nor skipped nor
compensated. -/
def RequeuesUnfinished (definition : Option WorkflowDefinition) (base : Option WorkflowInstance)
    (events : List Event) : Prop :=
  ∀ prior event rest before stepId requeuedBy dlqId, events = prior ++ event :: rest →
    event.payload = .workflowRequeued (some stepId) requeuedBy dlqId →
    stateAfter definition base prior = .ok (some before) →
    (before.stepOr stepId).status ≠ .completed ∧ (before.stepOr stepId).status ≠ .skipped ∧
      (before.stepOr stepId).status ≠ .compensated

section Advance

variable {state : State} {payload : Payload} {source target : WorkflowStatus}

theorem stepMoves_iff {source target : StepStatus} :
    StepMoves source target ↔ stepTransitionAllowed source target = true := by
  rw [StepMoves, stepTransitionAllowed, decide_eq_true_iff]
  exact or_congr_left eq_comm

theorem stepMoves_ready_iff {source : StepStatus} : StepMoves source .ready ↔
      source ≠ .completed ∧ source ≠ .skipped ∧ source ≠ .compensated := by
  cases source <;> simp [StepMoves, stepTransitions]

theorem workflowMoves_of_allowed
    (allowed : source = target ∨ workflowTransitionAllowed source target = true) :
    WorkflowMoves source target := by
  rcases allowed with same | listed
  · exact .inl same.symm
  · exact .inr (of_decide_eq_true listed)

theorem StepMoves.eq_of_final {source target : StepStatus} (moves : StepMoves source target)
    (final : source = .skipped ∨ source = .compensated) : target = source := by
  rcases final with rfl | rfl <;> simpa [StepMoves, stepTransitions] using moves

theorem WorkflowMoves.eq_of_final (moves : WorkflowMoves source target)
    (final : source = .completed ∨ source = .rolledBack) : target = source := by
  rcases final with rfl | rfl <;> simpa [WorkflowMoves, workflowTransitions] using moves

private theorem stepMoves_modifyStep {stepId : String} {change : StepView → StepView}
    (moves : StepMoves (state.steps stepId).status (change (state.steps stepId)).status)
    (other : String) :
    StepMoves (state.steps other).status ((state.modifyStep stepId change).steps other).status := by
  rw [steps_modifyStep]
  by_cases same : other = stepId
  · subst same
    simpa using moves
  · rw [if_neg same]
    exact .inl rfl

private theorem stepMoves_raiseEscalation {escalation : Escalation}
    (moves : escalation.stepId = "" ∨
      stepTransitionAllowed (state.steps escalation.stepId).status .waitingApproval = true)
    (other : String) : StepMoves (state.steps other).status
      ((state.raiseEscalation escalation).steps other).status := by
  unfold State.raiseEscalation
  by_cases workflowLevel : escalation.stepId = ""
  · simp only [workflowLevel, if_true]
    exact .inl rfl
  · simp only [workflowLevel, if_false]
    exact stepMoves_modifyStep (stepMoves_iff.mpr (moves.resolve_left workflowLevel)) other

theorem workflowMoves_advance (accepts : state.Accepts payload) :
    WorkflowMoves state.status (state.advance payload).status := by
  cases payload with
  | instanceStatusChanged => exact workflowMoves_of_allowed accepts.2
  | instanceCompleted | instanceFailed => exact workflowMoves_of_allowed accepts
  | workflowRequeued stepId =>
    have moves := workflowMoves_of_allowed accepts
    cases stepId <;> exact moves
  | escalationRaised => exact .inl (State.status_raiseEscalation state _)
  | _ => exact .inl rfl

/-- Every accepted event moves every step along the table, except for a requeue
of a step without a way to READY. -/
theorem stepMoves_advance (accepts : state.Accepts payload) (unfinished : ∀ stepId requeuedBy dlqId,
      payload = .workflowRequeued (some stepId) requeuedBy dlqId →
      StepMoves (state.steps stepId).status .ready) (other : String) :
    StepMoves (state.steps other).status ((state.advance payload).steps other).status := by
  cases payload with
  | workflowRequeued stepId =>
    cases stepId with
    | none => exact .inl rfl
    | some stepId =>
      rw [State.advance]
      change StepMoves (({ state with status := .running } : State).steps other).status _
      apply stepMoves_modifyStep
      exact unfinished stepId _ _ rfl
  | stepStatusChanged =>
    rw [State.advance]
    apply stepMoves_modifyStep
    exact stepMoves_iff.mpr accepts.2
  | stepStarted | stepCompleted | stepFailed | stepSkipped | stepCompensated =>
    rw [State.advance]
    apply stepMoves_modifyStep
    exact stepMoves_iff.mpr accepts
  | stepRetryScheduled =>
    rw [State.advance]
    apply stepMoves_modifyStep
    exact .inl rfl
  | escalationRaised => exact stepMoves_raiseEscalation accepts other
  | _ => exact .inl rfl

end Advance

variable {first second third : WorkflowInstance}

theorem StepsSettled.trans (earlier : StepsSettled first second)
    (later : StepsSettled second third) :
    StepsSettled first third := by
  intro stepId final
  have same := earlier stepId final
  rw [← same] at final ⊢
  exact later stepId final

theorem WorkflowSettled.trans (earlier : WorkflowSettled first second)
    (later : WorkflowSettled second third) : WorkflowSettled first third := by
  intro final
  have same := earlier final
  rw [← same] at final ⊢
  exact later final

section Consecutive

variable {definition : Option WorkflowDefinition} {base : Option WorkflowInstance}
  {prior : List Event} {event : Event} {before after : WorkflowInstance}

variable (earlier : stateAfter definition base prior = .ok (some before))

include earlier

theorem stateAfter_cons (event : Event) (rest : List Event) :
    stateAfter definition base (prior ++ event :: rest) =
      foldEvent definition ((base.map WorkflowInstance.version).getD 0 + 1 + prior.length)
          (some before) event >>= fun next =>
        foldFrom definition ((base.map WorkflowInstance.version).getD 0 + 1 + prior.length + 1)
          (some next) rest := by
  unfold stateAfter at earlier ⊢
  rw [foldFrom_append, earlier]
  rfl

/-- The event between two states is one the protocol accepts, and its effect. -/
private theorem advance_of_consecutive
    (later : stateAfter definition base (prior ++ [event]) = .ok (some after)) :
    (view prior before).Accepts event.payload ∧
      after.status = ((view prior before).advance event.payload).status ∧
      ∀ stepId, (after.stepOr stepId).status =
        (((view prior before).advance event.payload).steps stepId).status := by
  rw [stateAfter_cons earlier] at later
  obtain ⟨next, nextOk, result⟩ := bind_eq_ok.mp later
  cases result
  obtain ⟨_, opened, handled, openedOk, handledOk, rfl⟩ := foldEvent_eq_ok.mp nextOk
  cases openedOk
  have accepts := (exists_handle_iff definition before event prior).mp ⟨_, handledOk⟩
  rw [← view_handle prior handledOk]
  exact ⟨accepts, rfl, fun _ => rfl⟩

private theorem exists_stateAfter_concat {rest : List Event} {result : Option WorkflowInstance}
    (later : stateAfter definition base (prior ++ event :: rest) = .ok result) :
    ∃ next, stateAfter definition base (prior ++ [event]) = .ok (some next) := by
  rw [stateAfter_cons earlier] at later ⊢
  obtain ⟨next, nextOk, _⟩ := bind_eq_ok.mp later
  exact ⟨next, bind_eq_ok.mpr ⟨next, nextOk, rfl⟩⟩

omit earlier

/-- What holds between consecutive states and is reflexive and transitive holds
between any two states of a fold. -/
private theorem related_of_consecutive {events : List Event}
    (related : WorkflowInstance → WorkflowInstance → Prop) (refl : ∀ inst, related inst inst)
    (trans : ∀ first second third, related first second → related second third →
      related first third)
    (single : ∀ prior event rest before after, events = prior ++ event :: rest →
      stateAfter definition base prior = .ok (some before) →
      stateAfter definition base (prior ++ [event]) = .ok (some after) → related before after)
    {middle rest : List Event} (split : events = prior ++ middle ++ rest)
    (earlier : stateAfter definition base prior = .ok (some before))
    (later : stateAfter definition base (prior ++ middle) = .ok (some after)) :
    related before after := by
  induction middle generalizing prior before with
  | nil =>
    rw [List.append_nil, earlier] at later
    cases later
    exact refl _
  | cons event middle ih =>
    obtain ⟨next, nextOk⟩ := exists_stateAfter_concat earlier later
    refine trans before next after ?_ ?_
    · exact single prior event (middle ++ rest) before next (by simpa using split) earlier nextOk
    · exact ih (by simpa using split) nextOk (by simpa using later)

end Consecutive

/-- A fold enforces the transition tables exactly if its requeues meet
unfinished steps. -/
theorem tables_enforced_iff {definition : Option WorkflowDefinition}
    {base : Option WorkflowInstance} {events : List Event} {inst : WorkflowInstance}
    (folded : fold events definition base = .ok inst) :
    TablesEnforced definition base events ↔ RequeuesUnfinished definition base events := by
  constructor
  · intro enforced prior event rest before stepId requeuedBy dlqId split requeues earlier
    obtain ⟨result, accepted, _⟩ := bind_eq_ok.mp folded
    rw [split] at accepted
    obtain ⟨after, later⟩ := exists_stateAfter_concat earlier accepted
    have moves := enforced.step prior event rest before after split earlier later stepId
    obtain ⟨_, _, steps⟩ := advance_of_consecutive earlier later
    rw [steps, requeues, State.advance, steps_modifyStep, if_pos rfl] at moves
    exact stepMoves_ready_iff.mp moves
  · intro unfinished
    have step : ∀ prior event rest before after, events = prior ++ event :: rest →
        stateAfter definition base prior = .ok (some before) →
        stateAfter definition base (prior ++ [event]) = .ok (some after) →
        ∀ stepId, StepMoves (before.stepOr stepId).status (after.stepOr stepId).status := by
      intro prior event rest before after split earlier later stepId
      obtain ⟨accepts, _, steps⟩ := advance_of_consecutive earlier later
      rw [steps]
      apply stepMoves_advance accepts
      intro requeued requeuedBy dlqId requeues
      exact stepMoves_ready_iff.mpr
        (unfinished prior event rest before requeued requeuedBy dlqId split requeues earlier)
    have workflow : ∀ prior event rest before after, events = prior ++ event :: rest →
        stateAfter definition base prior = .ok (some before) →
        stateAfter definition base (prior ++ [event]) = .ok (some after) →
        WorkflowMoves before.status after.status := by
      intro prior event rest before after _ earlier later
      obtain ⟨accepts, status, _⟩ := advance_of_consecutive earlier later
      rw [status]
      exact workflowMoves_advance accepts
    refine ⟨step, workflow, ?_, ?_⟩
    · intro prior middle rest before after split earlier later
      refine related_of_consecutive StepsSettled (fun _ _ _ => rfl)
        (fun _ _ _ => StepsSettled.trans) ?_ split earlier later
      intro prior event rest before after split earlier later stepId final
      exact (step prior event rest before after split earlier later stepId).eq_of_final final
    · intro prior middle rest before after split earlier later
      refine related_of_consecutive WorkflowSettled (fun _ _ => rfl)
        (fun _ _ _ => WorkflowSettled.trans) ?_ split earlier later
      intro prior event rest before after split earlier later final
      exact (workflow prior event rest before after split earlier later).eq_of_final final

/-- An event of the sample streams. -/
def sampleEvent (sequence : Nat) (payload : Payload) : Event :=
  { eventId := "event", instanceId := "instance", tenantId := "tenant", sequence := sequence,
    occurredAt := 0, payload := payload }

/-- A step is requeued before it has started. -/
def requeuedEarly : List Event :=
  [sampleEvent 1 (.instanceCreated "workflow" "1.0.0" Dict.empty none),
   sampleEvent 2 (.workflowRequeued (some "step") "operator" none)]

theorem tables_enforced_requeuedEarly : TablesEnforced none none requeuedEarly := by
  have folded : fold requeuedEarly none none = .ok _ := rfl
  apply (tables_enforced_iff folded).mpr
  intro prior event rest before stepId requeuedBy dlqId split requeues earlier
  rcases prior with _ | ⟨first, _ | ⟨second, prior⟩⟩
  · cases split
    cases requeues
  · cases split
    cases requeues
    cases earlier
    decide
  · simp [requeuedEarly] at split

/-- A step is skipped and then requeued. -/
def requeuedSkipped : List Event :=
  [sampleEvent 1 (.instanceCreated "workflow" "1.0.0" Dict.empty none),
   sampleEvent 2 (.stepSkipped "step" "not needed"),
   sampleEvent 3 (.workflowRequeued (some "step") "operator" none)]

/-- The fold accepts a requeue that takes a skipped step back to READY. -/
theorem skipped_step_revived :
    (∃ inst, fold requeuedSkipped = .ok inst) ∧ ¬ TablesEnforced none none requeuedSkipped := by
  refine ⟨⟨_, rfl⟩, ?_⟩
  intro enforced
  have kept := enforced.finalStep (requeuedSkipped.take 2) (requeuedSkipped.drop 2) [] _ _ rfl rfl
    rfl "step" (.inl rfl)
  exact absurd kept (by decide)

/-! ## Seeding by the definition -/

/-- The step whose state an event reads or writes, and so creates. -/
def touchedStep : Payload → Option String
  | .workflowRequeued stepId _ _ => stepId
  | .stepStatusChanged stepId _ _ _ => some stepId
  | .stepStarted stepId _ _ _ => some stepId
  | .stepCompleted stepId _ _ _ => some stepId
  | .stepFailed stepId _ _ _ _ => some stepId
  | .stepRetryScheduled stepId _ _ => some stepId
  | .stepSkipped stepId _ => some stepId
  | .stepCompensated stepId _ => some stepId
  | .llmCallRecorded stepId _ _ => some stepId
  | .escalationRaised escalation => if escalation.stepId = "" then none else some escalation.stepId
  | .costCharged stepId _ _ _ _ => stepId.filter (· ≠ "")
  | _ => none

def Touched (events : List Event) (stepId : String) : Prop :=
  ∃ event ∈ events, touchedStep event.payload = some stepId

/-- The same instance, with an initial state for every step of the definition
that the stream has not touched. -/
structure SeedsIdle (definition : WorkflowDefinition) (events : List Event)
    (bare seeded : WorkflowInstance) : Prop where
  fields : seeded = { bare with stepStates := seeded.stepStates }
  touched : ∀ stepId, Touched events stepId →
    ∃ state, bare.stepStates.get? stepId = some state ∧
      seeded.stepStates.get? stepId = some state
  idle : ∀ stepId, ¬ Touched events stepId → stepId ∈ definition.stepIds →
    bare.stepStates.get? stepId = none ∧
      seeded.stepStates.get? stepId = some { stepId := stepId, status := .pending }
  foreign : ∀ stepId, ¬ Touched events stepId → stepId ∉ definition.stepIds →
    bare.stepStates.get? stepId = none ∧ seeded.stepStates.get? stepId = none
  view : ∀ log, Protocol.view log seeded = Protocol.view log bare

section Touching

variable {inst next : WorkflowInstance} {stepId : String} {events : List Event}
  {state : Option WorkflowInstance} {event : Event}

private theorem mem_keys_modifyStep {other : String} {change : StepState → StepState} :
    stepId ∈ (inst.modifyStep other change).stepStates.keys ↔
      stepId ∈ inst.stepStates.keys ∨ other = stepId := by
  unfold WorkflowInstance.modifyStep WorkflowInstance.setStep
  simp only [Dict.mem_keys_iff_get?, Dict.get?_set]
  by_cases same : stepId = other
  · simp [same]
  · simp [same, Ne.symm same]

/-- Handlers create the state of the step they touch and of no other. -/
theorem mem_keys_of_handle (handled : handle none inst event = .ok next) :
    stepId ∈ next.stepStates.keys ↔
      stepId ∈ inst.stepStates.keys ∨ touchedStep event.payload = some stepId := by
  unfold handle at handled
  cases payload : event.payload <;> rw [payload] at handled
  case workflowRequeued requeued _ _ =>
    obtain ⟨_, rfl⟩ := onRequeued_eq_ok.mp handled
    cases requeued with
    | none => simp [touchedStep]
    | some requeued =>
      rw [Option.elim_some, mem_keys_modifyStep]
      simp [touchedStep]
  case stepStatusChanged =>
    obtain ⟨_, _, rfl⟩ := onStepStatus_eq_ok.mp handled
    simp [mem_keys_modifyStep, touchedStep]
  case stepStarted =>
    obtain ⟨_, rfl⟩ := onStepStarted_eq_ok.mp handled
    simp [mem_keys_modifyStep, touchedStep]
  case stepCompleted =>
    obtain ⟨_, rfl⟩ := onStepCompleted_eq_ok.mp handled
    simp [mem_keys_modifyStep, touchedStep]
  case stepFailed =>
    obtain ⟨_, rfl⟩ := onStepFailed_eq_ok.mp handled
    simp [mem_keys_modifyStep, touchedStep]
  case stepSkipped | stepCompensated =>
    obtain ⟨_, rfl⟩ := setStepStatus_eq_ok.mp handled
    simp [mem_keys_modifyStep, touchedStep]
  case stepRetryScheduled | llmCallRecorded =>
    cases handled
    simp [onRetryScheduled, onLlmRecorded, mem_keys_modifyStep, touchedStep]
  case escalationRaised escalation =>
    obtain ⟨_, rfl⟩ := onEscalationRaised_eq_ok.mp handled
    by_cases workflowLevel : escalation.stepId = ""
    · simp [workflowLevel, touchedStep]
    · simp [workflowLevel, touchedStep, mem_keys_modifyStep]
  case costCharged charged _ _ _ _ =>
    cases handled
    rw [touchedStep]
    unfold onCost
    cases charged.filter (· ≠ "") with
    | none => simp
    | some charged => simp [mem_keys_modifyStep]
  case instanceStatusChanged =>
    obtain ⟨_, _, rfl⟩ := onWorkflowStatus_eq_ok.mp handled
    simp [touchedStep]
  case instanceCompleted =>
    obtain ⟨_, rfl⟩ := onCompleted_eq_ok.mp handled
    simp [touchedStep]
  case instanceFailed =>
    obtain ⟨_, rfl⟩ := onFailed_eq_ok.mp handled
    simp [touchedStep]
  case escalationResolved _ _ _ _ modifiedContext =>
    cases handled
    cases modifiedContext <;> simp [onEscalationResolved, resolveEscalation, touchedStep]
  case sideEffectIntentRecorded =>
    cases handled
    unfold onEffectIntent
    split <;> simp [touchedStep]
  case sideEffectExecuted =>
    cases handled
    unfold onEffectExecuted
    split <;> simp [touchedStep]
  all_goals
    cases handled
    simp [touchedStep, onCreated, onEffectCompensated, resolveEscalation, onBudgetExceeded]

private theorem mem_keys_of_openInstance (opened : openInstance state event = .ok inst) :
    stepId ∈ inst.stepStates.keys ↔ ∃ base, state = some base ∧ stepId ∈ base.stepStates.keys := by
  cases state with
  | some base =>
    cases opened
    simp
  | none =>
    unfold openInstance at opened
    cases payload : event.payload <;> rw [payload] at opened <;> cases opened
    simp [Dict.mem_keys_iff_get?]

private theorem mem_keys_of_foldFrom {expected : Nat}
    (accepted : foldFrom none expected state events = .ok (some inst)) :
    stepId ∈ inst.stepStates.keys ↔
      (∃ base, state = some base ∧ stepId ∈ base.stepStates.keys) ∨ Touched events stepId := by
  induction events generalizing expected state with
  | nil =>
    cases accepted
    simp [Touched]
  | cons event rest ih =>
    obtain ⟨next, nextOk, accepted⟩ := bind_eq_ok.mp accepted
    obtain ⟨_, opened, handled, openedOk, handledOk, rfl⟩ := foldEvent_eq_ok.mp nextOk
    have created : stepId ∈ handled.stepStates.keys ↔ _ := mem_keys_of_handle handledOk
    rw [mem_keys_of_openInstance openedOk] at created
    rw [ih accepted]
    simp only [Option.some.injEq, exists_eq_left', created, Touched, List.exists_mem_cons_iff,
      or_assoc]

/-- A fold stores the states of the steps its stream has touched. -/
theorem mem_keys_of_fold (folded : fold events = .ok inst) :
    stepId ∈ inst.stepStates.keys ↔ Touched events stepId := by
  rw [mem_keys_of_foldFrom (fold_none_eq_ok.mp folded)]
  simp

end Touching

/-- A definition adds initial states of idle steps to a fold and changes nothing
else, errors included. -/
theorem definition_only_seeds (definition : WorkflowDefinition) (events : List Event) :
    Agree (SeedsIdle definition events) (fold events) (fold events (some definition)) := by
  apply (fold_agree (some definition) events).imp_of_ok
  intro bare seeded bareOk _ related
  have keys (stepId : String) : stepId ∈ bare.stepStates.keys ↔ Touched events stepId :=
    mem_keys_of_fold bareOk
  have seeds (stepId : String) : stepId ∈ events.flatMap (seedsOf (some definition)) ↔
      stepId ∈ definition.stepIds := by
    rw [mem_flatMap_seedsOf]
    exact and_iff_right (exists_genesis_of_fold bareOk)
  have sameView := view_of_seeded related
  obtain ⟨states, rfl, covers⟩ := related
  have absent (stepId : String) (idle : ¬ Touched events stepId) :
      bare.stepStates.get? stepId = none := by
    by_contra stored
    obtain ⟨state, stored⟩ := Option.ne_none_iff_exists'.mp stored
    exact idle ((keys stepId).mp (Dict.mem_keys_iff_get?.mpr ⟨state, stored⟩))
  refine ⟨rfl, ?_, ?_, ?_, sameView⟩
  · intro stepId touched
    obtain ⟨state, stored⟩ := Dict.mem_keys_iff_get?.mp ((keys stepId).mpr touched)
    refine ⟨state, stored, ?_⟩
    simp [covers stepId, stored]
  · intro stepId idle listed
    simp [covers stepId, absent stepId idle, seeds, listed]
  · intro stepId idle unlisted
    simp [covers stepId, absent stepId idle, seeds, unlisted]

end AgentForge.Guarantees
