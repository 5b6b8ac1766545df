import AgentForge.Events.Seeding
import Mathlib.Logic.Function.Basic

/-!
# The abstract protocol state

What the rules of the engine speak about: the log, the workflow status, the
status of every step with its attempts, output and retry time, the escalations
and the budget.  Steps are a function, so a step that no event has touched is
simply an initial one.  `advance` is the effect of an event on this state,
`Accepts` the condition under which the fold takes it; both are proved to agree
with the handlers of the fold.
-/

namespace AgentForge.Protocol

open Domain Events Library

/-- The part of a step state that decides what may happen to the step. -/
@[ext]
structure StepView where
  status : StepStatus := .pending
  attempts : Nat := 0
  output : Option JsonDict := none
  nextRetryAt : Option Time := none

def StepView.of (state : StepState) : StepView :=
  { status := state.status, attempts := state.attempts, output := state.output,
    nextRetryAt := state.nextRetryAt }

@[ext]
structure State where
  log : List Event
  status : WorkflowStatus
  steps : String → StepView
  escalations : List EscalationRef
  budgetLimitUsd : Option Rat
  costUsd : Rat

namespace State

def remaining (state : State) : Option Rat :=
  state.budgetLimitUsd.map fun limit => limit - state.costUsd

def modifyStep (state : State) (stepId : String) (change : StepView → StepView) : State :=
  { state with steps := Function.update state.steps stepId (change (state.steps stepId)) }

/-- Mark every reference to an escalation as resolved. -/
def closeEscalation (state : State) (escalationId : String) : State :=
  { state with
    escalations := state.escalations.map fun ref =>
      if ref.escalationId = escalationId then { ref with resolved := true } else ref }

/-- Record an escalation, holding its step unless it is about the workflow. -/
def raiseEscalation (state : State) (escalation : Escalation) : State :=
  { (if escalation.stepId = "" then state
      else state.modifyStep escalation.stepId
        fun step => { step with status := .waitingApproval }) with
    escalations := state.escalations ++
      [{ escalationId := escalation.escalationId, stepId := escalation.stepId,
         reason := escalation.reason, deadline := escalation.deadline }] }

@[simp]
theorem status_raiseEscalation (state : State) (escalation : Escalation) :
    (state.raiseEscalation escalation).status = state.status := by
  unfold raiseEscalation
  by_cases workflowLevel : escalation.stepId = "" <;> simp [workflowLevel, modifyStep]

/-- The effect of an event, apart from the log. -/
def advance (state : State) : Payload → State
  | .instanceCreated _ _ _ budgetLimitUsd => { state with budgetLimitUsd := budgetLimitUsd }
  | .instanceStatusChanged _ toStatus _ => { state with status := toStatus }
  | .instanceCompleted _ => { state with status := .completed }
  | .instanceFailed _ _ => { state with status := .failed }
  | .workflowRequeued none _ _ => { state with status := .running }
  | .workflowRequeued (some stepId) _ _ =>
      { state with status := .running }.modifyStep stepId fun step =>
        { step with status := .ready, attempts := 0, nextRetryAt := none }
  | .workflowBudgetAdjusted newLimitUsd _ _ => { state with budgetLimitUsd := newLimitUsd }
  | .stepStatusChanged stepId _ toStatus _ =>
      state.modifyStep stepId fun step => { step with status := toStatus }
  | .stepStarted stepId attempt _ _ =>
      state.modifyStep stepId fun step =>
        { step with status := .running, attempts := attempt, nextRetryAt := none }
  | .stepCompleted stepId _ output _ =>
      state.modifyStep stepId fun step => { step with status := .completed, output := output }
  | .stepFailed stepId _ _ _ _ =>
      state.modifyStep stepId fun step => { step with status := .failed }
  | .stepRetryScheduled stepId _ runAt =>
      state.modifyStep stepId fun step => { step with nextRetryAt := runAt }
  | .stepSkipped stepId _ => state.modifyStep stepId fun step => { step with status := .skipped }
  | .stepCompensated stepId _ =>
      state.modifyStep stepId fun step => { step with status := .compensated }
  | .escalationRaised escalation => state.raiseEscalation escalation
  | .escalationResolved escalationId _ _ _ _ => state.closeEscalation escalationId
  | .escalationTimedOut escalationId _ _ => state.closeEscalation escalationId
  | .costCharged _ amountUsd _ _ _ => { state with costUsd := state.costUsd + amountUsd }
  | _ => state

/-- The state after an event. -/
def after (state : State) (event : Event) : State :=
  { state.advance event.payload with log := state.log ++ [event] }

/-- When the fold takes an event. -/
def Accepts (state : State) : Payload → Prop
  | .instanceStatusChanged fromStatus toStatus _ =>
      fromStatus = state.status ∧
        (state.status = toStatus ∨ workflowTransitionAllowed state.status toStatus = true)
  | .instanceCompleted _ =>
      state.status = .completed ∨ workflowTransitionAllowed state.status .completed = true
  | .instanceFailed _ _ =>
      state.status = .failed ∨ workflowTransitionAllowed state.status .failed = true
  | .workflowRequeued _ _ _ =>
      state.status = .running ∨ workflowTransitionAllowed state.status .running = true
  | .stepStatusChanged stepId fromStatus toStatus _ =>
      fromStatus = (state.steps stepId).status ∧
        stepTransitionAllowed (state.steps stepId).status toStatus = true
  | .stepStarted stepId _ _ _ =>
      stepTransitionAllowed (state.steps stepId).status .running = true
  | .stepCompleted stepId _ _ _ =>
      stepTransitionAllowed (state.steps stepId).status .completed = true
  | .stepFailed stepId _ _ _ _ =>
      stepTransitionAllowed (state.steps stepId).status .failed = true
  | .stepSkipped stepId _ =>
      stepTransitionAllowed (state.steps stepId).status .skipped = true
  | .stepCompensated stepId _ =>
      stepTransitionAllowed (state.steps stepId).status .compensated = true
  | .escalationRaised escalation =>
      escalation.stepId = "" ∨
        stepTransitionAllowed (state.steps escalation.stepId).status .waitingApproval = true
  | _ => True

/-- The state after a batch of events. -/
def afterAll (state : State) (events : List Event) : State :=
  events.foldl after state

/-- When the fold takes a batch, event by event. -/
def AcceptsAll : State → List Event → Prop
  | _, [] => True
  | state, event :: rest => state.Accepts event.payload ∧ (state.after event).AcceptsAll rest

/-- Before the first event. -/
def initial : State where
  log := []
  status := .pending
  steps := fun _ => { }
  escalations := []
  budgetLimitUsd := none
  costUsd := 0

@[simp]
theorem log_afterAll (state : State) (events : List Event) :
    (state.afterAll events).log = state.log ++ events := by
  induction events generalizing state with
  | nil => simp [afterAll]
  | cons event rest ih =>
    change ((state.after event).afterAll rest).log = state.log ++ event :: rest
    rw [ih]
    simp [after]

theorem afterAll_append (state : State) (first second : List Event) :
    state.afterAll (first ++ second) = (state.afterAll first).afterAll second :=
  List.foldl_append

end State

/-- The state that a log leads to. -/
def replay (log : List Event) : State :=
  State.initial.afterAll log

variable (log : List Event)

include log

@[simp]
theorem log_replay : (replay log).log = log :=
  State.log_afterAll State.initial log

omit log in
theorem replay_append (log batch : List Event) :
    replay (log ++ batch) = (replay log).afterAll batch :=
  State.afterAll_append State.initial log batch

theorem replay_concat (event : Event) : replay (log ++ [event]) = (replay log).after event :=
  replay_append log [event]

omit log in
/-- After a genesis event nothing has happened yet. -/
theorem replay_genesis {event : Event} (isGenesis : event.isGenesis = true) :
    ∃ budgetLimitUsd, replay [event] =
      { State.initial with log := [event], budgetLimitUsd := budgetLimitUsd } := by
  unfold Event.isGenesis at isGenesis
  cases payload : event.payload with
  | instanceCreated workflowId workflowVersion context budgetLimitUsd =>
    refine ⟨budgetLimitUsd, ?_⟩
    change State.initial.after event = _
    rw [State.after, payload]
    rfl
  | _ => simp [payload] at isGenesis

/-! ## Agreement with the fold -/

/-- What the protocol sees of an instance whose events are `log`. -/
def view (log : List Event) (inst : WorkflowInstance) : State where
  log := log
  status := inst.status
  steps := fun stepId => .of (inst.stepOr stepId)
  escalations := inst.escalations
  budgetLimitUsd := inst.budgetLimitUsd
  costUsd := inst.costAccumulatedUsd

theorem view_modifyStep (inst : WorkflowInstance) (stepId : String) (change : StepState → StepState)
    (changeView : StepView → StepView)
    (agree : ∀ state, StepView.of (change state) = changeView (.of state)) :
    view log (inst.modifyStep stepId change) = (view log inst).modifyStep stepId changeView := by
  have steps : (fun other => StepView.of ((inst.modifyStep stepId change).stepOr other)) =
      Function.update (fun other => StepView.of (inst.stepOr other)) stepId
        (changeView (.of (inst.stepOr stepId))) := by
    funext other
    rw [WorkflowInstance.stepOr_modifyStep]
    by_cases same : other = stepId
    · subst same
      simp [agree]
    · simp [same]
  unfold view State.modifyStep
  rw [steps]
  rfl

omit log

/-- The protocol does not see which initial states are stored. -/
theorem view_of_seeded {seeds : List String} {bare seeded : WorkflowInstance}
    (related : Seeded seeds bare seeded) (log : List Event) : view log seeded = view log bare := by
  have steps : (fun stepId => StepView.of (seeded.stepOr stepId)) =
      fun stepId => StepView.of (bare.stepOr stepId) := by
    funext stepId
    rw [related.stepOr]
  unfold view
  rw [steps]
  obtain ⟨states, rfl, _⟩ := related
  rfl

section Handlers

variable {definition : Option WorkflowDefinition} {inst next : WorkflowInstance} {event : Event}

include log

private theorem view_onCreated (inst : WorkflowInstance) (context : JsonDict)
    (budgetLimitUsd : Option Rat) (occurredAt : Time) (definition : Option WorkflowDefinition) :
    view log (onCreated inst context budgetLimitUsd occurredAt definition) =
      { view log inst with budgetLimitUsd := budgetLimitUsd } := by
  rw [view_of_seeded
    ((Seeded.refl inst).onCreated context budgetLimitUsd occurredAt definition) log]
  rfl

private theorem view_onEscalationRaised {escalation : Escalation}
    (handled : onEscalationRaised inst escalation = .ok next) :
    view log next = (view log inst).raiseEscalation escalation := by
  obtain ⟨_, rfl⟩ := onEscalationRaised_eq_ok.mp handled
  unfold State.raiseEscalation
  by_cases workflowLevel : escalation.stepId = ""
  · simp only [workflowLevel, if_true]
    rfl
  · simp only [workflowLevel, if_false]
    rw [← view_modifyStep log inst escalation.stepId
      (fun state => { state with status := .waitingApproval })
      (fun step => { step with status := .waitingApproval }) (fun _ => rfl)]
    rfl

/-- A handled event advances the view. -/
theorem view_handle (handled : handle definition inst event = .ok next) :
    view log next = (view log inst).advance event.payload := by
  unfold handle at handled
  cases payload : event.payload <;> rw [payload] at handled
  case instanceCreated =>
    cases handled
    exact view_onCreated log inst _ _ _ definition
  case instanceStatusChanged =>
    obtain ⟨_, _, rfl⟩ := onWorkflowStatus_eq_ok.mp handled
    rfl
  case instanceCompleted =>
    obtain ⟨_, rfl⟩ := onCompleted_eq_ok.mp handled
    rfl
  case instanceFailed =>
    obtain ⟨_, rfl⟩ := onFailed_eq_ok.mp handled
    rfl
  case workflowRequeued stepId _ _ =>
    obtain ⟨_, rfl⟩ := onRequeued_eq_ok.mp handled
    cases stepId with
    | none => rfl
    | some stepId =>
      rw [Option.elim_some, view_modifyStep log _ stepId requeuedStep
        (fun step => { step with status := .ready, attempts := 0, nextRetryAt := none })
        (fun _ => rfl)]
      rfl
  case stepStatusChanged =>
    obtain ⟨_, _, rfl⟩ := onStepStatus_eq_ok.mp handled
    rw [State.advance]
    apply view_modifyStep
    exact fun _ => rfl
  case stepStarted =>
    obtain ⟨_, rfl⟩ := onStepStarted_eq_ok.mp handled
    rw [State.advance]
    apply view_modifyStep
    exact fun _ => rfl
  case stepCompleted =>
    obtain ⟨_, rfl⟩ := onStepCompleted_eq_ok.mp handled
    rw [State.advance]
    apply view_modifyStep
    exact fun _ => rfl
  case stepFailed =>
    obtain ⟨_, rfl⟩ := onStepFailed_eq_ok.mp handled
    rw [State.advance]
    change view log (inst.modifyStep _ fun state => { state with
      status := .failed, errorType := some _, errorMessage := some _, recordedLlmCalls := [] }) = _
    apply view_modifyStep
    exact fun _ => rfl
  case stepRetryScheduled =>
    cases handled
    rw [State.advance]
    apply view_modifyStep
    exact fun _ => rfl
  case stepSkipped | stepCompensated =>
    obtain ⟨_, rfl⟩ := setStepStatus_eq_ok.mp handled
    rw [State.advance]
    apply view_modifyStep
    exact fun _ => rfl
  case llmCallRecorded =>
    cases handled
    unfold onLlmRecorded
    rw [view_modifyStep log inst _ _ id]
    · simp [State.modifyStep, State.advance]
    · exact fun _ => rfl
  case escalationRaised => exact view_onEscalationRaised log handled
  case escalationResolved _ _ _ _ modifiedContext =>
    cases handled
    cases modifiedContext <;> rfl
  case sideEffectIntentRecorded =>
    cases handled
    unfold onEffectIntent
    split <;> rfl
  case sideEffectExecuted =>
    cases handled
    unfold onEffectExecuted
    split <;> rfl
  case costCharged =>
    cases handled
    unfold onCost
    simp only
    split
    · rfl
    · rw [view_modifyStep log _ _ _ id]
      · simp [State.modifyStep, State.advance, view, WorkflowInstance.stepOr]
      · exact fun _ => rfl
  all_goals
    cases handled
    rfl

/-- The stamps of the fold are not part of the view. -/
theorem view_stamped (handled : handle definition inst event = .ok next) : view (log ++ [event])
        { next with updatedAt := event.occurredAt, version := event.sequence } =
      (view log inst).after event := by
  have advanced := view_handle log handled
  unfold State.after
  rw [← advanced]
  rfl

omit log

/-- A handler succeeds exactly on the events that the view accepts. -/
theorem exists_handle_iff (definition : Option WorkflowDefinition) (inst : WorkflowInstance)
    (event : Event) (log : List Event) : (∃ next, handle definition inst event = .ok next) ↔
      (view log inst).Accepts event.payload := by
  unfold handle
  cases event.payload
  case instanceStatusChanged =>
    simp only [onWorkflowStatus_eq_ok, exists_and_left, exists_eq, and_true]
    rfl
  case instanceCompleted =>
    simp only [onCompleted_eq_ok, exists_and_left, exists_eq, and_true]
    rfl
  case instanceFailed =>
    simp only [onFailed_eq_ok, exists_and_left, exists_eq, and_true]
    rfl
  case workflowRequeued =>
    simp only [onRequeued_eq_ok, exists_and_left, exists_eq, and_true]
    rfl
  case stepStatusChanged =>
    simp only [onStepStatus_eq_ok, exists_and_left, exists_eq, and_true]
    rfl
  case stepStarted =>
    simp only [onStepStarted_eq_ok, exists_and_left, exists_eq, and_true]
    rfl
  case stepCompleted =>
    simp only [onStepCompleted_eq_ok, exists_and_left, exists_eq, and_true]
    rfl
  case stepFailed =>
    simp only [onStepFailed_eq_ok, exists_and_left, exists_eq, and_true]
    rfl
  case stepSkipped | stepCompensated =>
    simp only [setStepStatus_eq_ok, exists_and_left, exists_eq, and_true]
    rfl
  case escalationRaised =>
    simp only [onEscalationRaised_eq_ok, exists_and_left, exists_eq, and_true]
    rfl
  all_goals exact ⟨fun _ => trivial, fun _ => ⟨_, rfl⟩⟩

end Handlers

/-! ## Batches -/

section Batches

variable {definition : Option WorkflowDefinition} {log batch : List Event}
  {base inst : WorkflowInstance} {event : Event}

/-- A folded batch was accepted event by event and leads to the state after it. -/
theorem view_of_fold_batch (folded : fold batch definition (some base) = .ok inst) :
    (view log base).AcceptsAll batch ∧
      view (log ++ batch) inst = (view log base).afterAll batch := by
  have accepted := fold_some_eq_ok.mp folded
  generalize base.version + 1 = expected at accepted
  clear folded
  induction batch generalizing base expected log with
  | nil =>
    cases accepted
    exact ⟨trivial, by simp [State.afterAll]⟩
  | cons event rest ih =>
    obtain ⟨handled, handledOk, accepted⟩ := foldFrom_cons_eq_ok accepted
    have stepView := view_stamped log handledOk
    have rests : (view (log ++ [event]) _).AcceptsAll rest ∧ _ := ih (expected + 1) accepted
    rw [stepView] at rests
    refine ⟨⟨(exists_handle_iff definition base event log).mp ⟨_, handledOk⟩, rests.1⟩, ?_⟩
    rw [List.append_cons]
    exact rests.2

/-- A batch with the right numbers that is accepted event by event folds. -/
theorem fold_of_acceptsAll
    (numbered : batch.map Event.sequence = List.range' (1 + base.version) batch.length)
    (accepts : (view log base).AcceptsAll batch) :
    ∃ inst, fold batch definition (some base) = .ok inst := by
  suffices general : ∃ inst,
      foldFrom definition (base.version + 1) (some base) batch = .ok (some inst) by
    obtain ⟨inst, foldedOk⟩ := general
    exact ⟨inst, fold_some_eq_ok.mpr foldedOk⟩
  rw [Nat.add_comm 1] at numbered
  generalize base.version + 1 = expected at numbered
  induction batch generalizing base expected log with
  | nil => exact ⟨base, rfl⟩
  | cons event rest ih =>
    rw [List.map_cons, List.length_cons, List.range'_succ, List.cons.injEq] at numbered
    obtain ⟨handled, handledOk⟩ :=
      (exists_handle_iff definition base event log).mpr accepts.1
    have stepOk : foldEvent definition expected (some base) event =
        .ok { handled with updatedAt := event.occurredAt, version := event.sequence } :=
      foldEvent_eq_ok.mpr ⟨numbered.1, base, handled, rfl, handledOk, rfl⟩
    have stepView := view_stamped log handledOk
    obtain ⟨inst, restOk⟩ := ih (stepView ▸ accepts.2) (expected + 1) numbered.2
    exact ⟨inst, bind_eq_ok.mpr ⟨_, stepOk, restOk⟩⟩

/-- A genesis event opens an instance in which nothing has happened. -/
theorem view_of_genesis (folded : fold [event] definition = .ok inst) :
    event.isGenesis = true ∧ view [event] inst = replay [event] := by
  obtain ⟨next, nextOk, rest⟩ := bind_eq_ok.mp (fold_none_eq_ok.mp folded)
  obtain ⟨_, opened, handled, openedOk, handledOk, rfl⟩ := foldEvent_eq_ok.mp nextOk
  cases rest
  have stepView := view_stamped [] handledOk
  unfold openInstance at openedOk
  unfold Event.isGenesis
  cases payload : event.payload with
  | instanceCreated workflowId workflowVersion context budgetLimitUsd =>
    rw [payload] at openedOk
    cases openedOk
    exact ⟨rfl, stepView⟩
  | _ =>
    rw [payload] at openedOk
    cases openedOk

/-- A genesis event with the first number folds. -/
theorem exists_fold_of_genesis (isGenesis : event.isGenesis = true) (first : event.sequence = 1)
    (definition : Option WorkflowDefinition) : ∃ inst, fold [event] definition = .ok inst := by
  unfold Event.isGenesis at isGenesis
  cases payload : event.payload with
  | instanceCreated workflowId workflowVersion context budgetLimitUsd =>
    obtain ⟨opened, openedOk⟩ : ∃ opened, openInstance none event = .ok opened := by
      unfold openInstance
      rw [payload]
      exact ⟨_, rfl⟩
    obtain ⟨handled, handledOk⟩ :=
      (exists_handle_iff definition opened event []).mpr (by rw [payload]; trivial)
    have stepOk : foldEvent definition 1 none event =
        .ok { handled with updatedAt := event.occurredAt, version := event.sequence } :=
      foldEvent_eq_ok.mpr ⟨first, opened, handled, openedOk, handledOk, rfl⟩
    exact ⟨_, fold_none_eq_ok.mpr (bind_eq_ok.mpr ⟨_, stepOk, rfl⟩)⟩
  | _ => simp [payload] at isGenesis

/-- The view of a folded log is its replay. -/
theorem view_of_fold (folded : fold log definition = .ok inst) : view log inst = replay log := by
  obtain ⟨event, rest, rfl⟩ := List.exists_cons_of_ne_nil (ne_nil_of_fold folded)
  have split : fold ([event] ++ rest) definition = .ok inst := folded
  obtain ⟨first, firstOk, restOk⟩ := exists_fold_of_append (List.cons_ne_nil _ _) split
  rw [← List.singleton_append, (view_of_fold_batch restOk).2, (view_of_genesis firstOk).2,
    replay_append]

end Batches

end AgentForge.Protocol
