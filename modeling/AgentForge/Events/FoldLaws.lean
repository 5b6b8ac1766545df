import AgentForge.Events.Fold

/-!
# Laws of the fold

The fold of a concatenation is the fold of the second part on top of the fold
of the first, the version of a folded instance is the number of its last event,
and whom an instance belongs to is settled by its genesis event.
-/

namespace AgentForge.Events

open Domain Library

variable {inst next base : WorkflowInstance} {stepId : String} {occurredAt : Time}
  {events : List Event} {target : WorkflowStatus}

/-! ## Status moves -/

theorem setStepStatus_eq_ok {target : StepStatus} : setStepStatus inst stepId target = .ok next ↔
      stepTransitionAllowed (inst.stepOr stepId).status target = true ∧
        next = inst.modifyStep stepId fun state => { state with status := target } := by
  unfold setStepStatus
  by_cases allowed : stepTransitionAllowed (inst.stepOr stepId).status target = true
  · simp [allowed, eq_comm]
  · simp [allowed]

theorem moveWorkflow_eq_ok : moveWorkflow inst target = .ok next ↔
      (inst.status = target ∨ workflowTransitionAllowed inst.status target = true) ∧
        next = { inst with status := target } := by
  unfold moveWorkflow
  by_cases allowed : inst.status = target ∨ workflowTransitionAllowed inst.status target = true
  · rw [if_neg (by grind)]
    simp only [allowed, true_and, Except.ok.injEq]
    exact eq_comm
  · rw [if_pos (by grind)]
    simp [allowed]

theorem setWorkflowStatus_eq_ok {declaredFrom : Option WorkflowStatus} :
    setWorkflowStatus inst target declaredFrom = .ok next ↔
      (∀ declared, declaredFrom = some declared → declared = inst.status) ∧
        (inst.status = target ∨ workflowTransitionAllowed inst.status target = true) ∧
          next = { inst with status := target } := by
  unfold setWorkflowStatus
  cases declaredFrom with
  | none => simp [moveWorkflow_eq_ok]
  | some declared =>
    by_cases same : declared = inst.status
    · simp [same, moveWorkflow_eq_ok]
    · simp [same]

/-- A move of a step, and what is made of the moved instance. -/
private theorem bind_setStepStatus_eq_ok {target : StepStatus}
    (result : WorkflowInstance → WorkflowInstance) :
    (setStepStatus inst stepId target >>= fun moved => pure (result moved)) = .ok next ↔
      stepTransitionAllowed (inst.stepOr stepId).status target = true ∧ next = result
        (inst.modifyStep stepId fun state => { state with status := target }) := by
  simp only [bind_eq_ok, setStepStatus_eq_ok, pure, Except.pure, Except.ok.injEq]
  constructor
  · rintro ⟨moved, ⟨allowed, rfl⟩, rfl⟩
    exact ⟨allowed, rfl⟩
  · rintro ⟨allowed, rfl⟩
    exact ⟨_, ⟨allowed, rfl⟩, rfl⟩

/-- The same for a move of the workflow. -/
private theorem bind_setWorkflowStatus_eq_ok (result : WorkflowInstance → WorkflowInstance) :
    (setWorkflowStatus inst target none >>= fun moved => pure (result moved)) = .ok next ↔
      (inst.status = target ∨ workflowTransitionAllowed inst.status target = true) ∧
        next = result { inst with status := target } := by
  simp only [bind_eq_ok, setWorkflowStatus_eq_ok, pure, Except.pure, Except.ok.injEq,
    reduceCtorEq, false_implies, implies_true, true_and]
  constructor
  · rintro ⟨moved, ⟨allowed, rfl⟩, rfl⟩
    exact ⟨allowed, rfl⟩
  · rintro ⟨allowed, rfl⟩
    exact ⟨_, ⟨allowed, rfl⟩, rfl⟩

/-! ## Accepted events

For every handler that checks something: when it accepts, and the instance it
then returns. -/

section Handlers

variable {inst next : WorkflowInstance} {errorType errorMessage : String} {attempt : Nat}

theorem onWorkflowStatus_eq_ok {fromStatus toStatus : WorkflowStatus} :
    onWorkflowStatus inst fromStatus toStatus occurredAt = .ok next ↔ fromStatus = inst.status ∧
        (inst.status = toStatus ∨ workflowTransitionAllowed inst.status toStatus = true) ∧
          next = { inst with
            status := toStatus
            completedAt := if toStatus.isTerminal then occurredAt else inst.completedAt } := by
  unfold onWorkflowStatus
  simp only [bind_eq_ok, setWorkflowStatus_eq_ok, Option.some.injEq, forall_eq', pure,
    Except.pure, Except.ok.injEq]
  constructor
  · rintro ⟨moved, ⟨declared, allowed, rfl⟩, rfl⟩
    refine ⟨declared, allowed, ?_⟩
    by_cases terminal : toStatus.isTerminal = true <;> simp [terminal]
  · rintro ⟨declared, allowed, rfl⟩
    refine ⟨_, ⟨declared, allowed, rfl⟩, ?_⟩
    by_cases terminal : toStatus.isTerminal = true <;> simp [terminal]

theorem onCompleted_eq_ok {outputs : JsonDict} : onCompleted inst outputs occurredAt = .ok next ↔
      (inst.status = .completed ∨ workflowTransitionAllowed inst.status .completed = true) ∧
        next = { inst with
          status := .completed
          completedAt := occurredAt
          context := if outputs.entries.isEmpty then inst.context
            else inst.context.set "_outputs" outputs.toJson } := by
  unfold onCompleted
  dsimp only
  rw [bind_setWorkflowStatus_eq_ok]
  by_cases empty : outputs.entries.isEmpty = true <;> simp [empty]

theorem onFailed_eq_ok : onFailed inst errorType errorMessage occurredAt = .ok next ↔
      (inst.status = .failed ∨ workflowTransitionAllowed inst.status .failed = true) ∧
        next = { inst with
          status := .failed
          errorHistory := inst.errorHistory ++
            [{ errorType := errorType, errorMessage := errorMessage,
               occurredAt := occurredAt }] } := by
  exact bind_setWorkflowStatus_eq_ok _

theorem onRequeued_eq_ok {stepId : Option String} : onRequeued inst stepId = .ok next ↔
      (inst.status = .running ∨ workflowTransitionAllowed inst.status .running = true) ∧
        next = stepId.elim { inst with status := .running }
          (fun stepId => { inst with status := .running }.modifyStep stepId requeuedStep) := by
  cases stepId with
  | none => exact bind_setWorkflowStatus_eq_ok _
  | some stepId => exact bind_setWorkflowStatus_eq_ok _

theorem onStepStatus_eq_ok {fromStatus toStatus : StepStatus} :
    onStepStatus inst stepId fromStatus toStatus = .ok next ↔
      fromStatus = (inst.stepOr stepId).status ∧
        stepTransitionAllowed (inst.stepOr stepId).status toStatus = true ∧
          next = inst.modifyStep stepId fun state => { state with status := toStatus } := by
  unfold onStepStatus
  by_cases declared : fromStatus = (inst.stepOr stepId).status
  · simp [declared, setStepStatus_eq_ok]
  · simp [declared]

theorem onStepStarted_eq_ok {modelSelected : Option String} :
    onStepStarted inst stepId attempt modelSelected occurredAt = .ok next ↔
      stepTransitionAllowed (inst.stepOr stepId).status .running = true ∧
        next = inst.modifyStep stepId fun state => { state with
          status := .running, attempts := attempt, startedAt := occurredAt, nextRetryAt := none,
          modelUsed := if truthy modelSelected then modelSelected else state.modelUsed } := by
  unfold onStepStarted
  rw [bind_setStepStatus_eq_ok, WorkflowInstance.modifyStep_modifyStep]

theorem onStepCompleted_eq_ok {output : JsonDict} {modelUsed : Option String} :
    onStepCompleted inst stepId output modelUsed occurredAt = .ok next ↔
      stepTransitionAllowed (inst.stepOr stepId).status .completed = true ∧
        next = inst.modifyStep stepId fun state => { state with
          status := .completed, output := output, completedAt := occurredAt,
          modelUsed := if truthy modelUsed then modelUsed else state.modelUsed } := by
  unfold onStepCompleted
  rw [bind_setStepStatus_eq_ok, WorkflowInstance.modifyStep_modifyStep]

theorem onStepFailed_eq_ok :
    onStepFailed inst stepId attempt errorType errorMessage occurredAt = .ok next ↔
      stepTransitionAllowed (inst.stepOr stepId).status .failed = true ∧
        next = { inst.modifyStep stepId fun state => { state with
            status := .failed, errorType := errorType, errorMessage := errorMessage,
            recordedLlmCalls := [] } with
          errorHistory := inst.errorHistory ++
            [{ stepId := stepId, errorType := errorType, errorMessage := errorMessage,
               occurredAt := occurredAt, attempt := attempt }] } := by
  unfold onStepFailed
  dsimp only
  rw [bind_setStepStatus_eq_ok, WorkflowInstance.modifyStep_modifyStep]
  rfl

theorem onEscalationRaised_eq_ok {escalation : Escalation} :
    onEscalationRaised inst escalation = .ok next ↔ (escalation.stepId = "" ∨
          stepTransitionAllowed (inst.stepOr escalation.stepId).status .waitingApproval = true) ∧
        next = { (if escalation.stepId = "" then inst else inst.modifyStep escalation.stepId
              fun state => { state with status := .waitingApproval }) with
          escalations := inst.escalations ++
            [{ escalationId := escalation.escalationId, stepId := escalation.stepId,
               reason := escalation.reason, deadline := escalation.deadline }] } := by
  unfold onEscalationRaised holdStep
  by_cases workflowLevel : escalation.stepId = ""
  · simp only [workflowLevel, if_true, bind_eq_ok, pure, Except.pure, Except.ok.injEq,
      exists_eq_left', true_or, true_and]
    exact eq_comm
  · simp only [workflowLevel, if_false, bind_setStepStatus_eq_ok, false_or]
    rfl

/-- What an event makes of the references to side effects. -/
def trackEffects (refs : List SideEffectRef) : Payload → List SideEffectRef
  | .sideEffectIntentRecorded stepId effectName key _ _ =>
      if refs.any fun ref => ref.idempotencyKey = key then refs
      else refs ++ [{ idempotencyKey := key, stepId := stepId, effectName := effectName }]
  | .sideEffectExecuted stepId key _ _ =>
      if refs.any fun ref => ref.idempotencyKey = key then markEffect key .executed refs
      else refs ++
        [{ idempotencyKey := key, stepId := stepId, effectName := "", status := .executed }]
  | .sideEffectCompensated _ key _ => markEffect key .compensated refs
  | _ => refs

/-- No event gives an instance to another owner. -/
theorem fields_of_handle {definition : Option WorkflowDefinition} {event : Event}
    (handled : handle definition inst event = .ok next) : next.owner = inst.owner ∧
      next.sideEffects = trackEffects inst.sideEffects event.payload := by
  unfold handle at handled
  cases payload : event.payload <;> rw [payload] at handled
  case instanceCreated =>
    cases handled
    unfold onCreated
    cases definition <;> exact ⟨rfl, rfl⟩
  case instanceStatusChanged =>
    obtain ⟨_, _, rfl⟩ := onWorkflowStatus_eq_ok.mp handled
    exact ⟨rfl, rfl⟩
  case instanceCompleted =>
    obtain ⟨_, rfl⟩ := onCompleted_eq_ok.mp handled
    exact ⟨rfl, rfl⟩
  case instanceFailed =>
    obtain ⟨_, rfl⟩ := onFailed_eq_ok.mp handled
    exact ⟨rfl, rfl⟩
  case workflowRequeued stepId _ _ =>
    obtain ⟨_, rfl⟩ := onRequeued_eq_ok.mp handled
    cases stepId <;> exact ⟨rfl, rfl⟩
  case stepStatusChanged =>
    obtain ⟨_, _, rfl⟩ := onStepStatus_eq_ok.mp handled
    exact ⟨rfl, rfl⟩
  case stepStarted =>
    obtain ⟨_, rfl⟩ := onStepStarted_eq_ok.mp handled
    exact ⟨rfl, rfl⟩
  case stepCompleted =>
    obtain ⟨_, rfl⟩ := onStepCompleted_eq_ok.mp handled
    exact ⟨rfl, rfl⟩
  case stepFailed =>
    obtain ⟨_, rfl⟩ := onStepFailed_eq_ok.mp handled
    exact ⟨rfl, rfl⟩
  case stepSkipped | stepCompensated =>
    obtain ⟨_, rfl⟩ := setStepStatus_eq_ok.mp handled
    exact ⟨rfl, rfl⟩
  case escalationRaised =>
    obtain ⟨_, rfl⟩ := onEscalationRaised_eq_ok.mp handled
    simp only
    split <;> exact ⟨rfl, rfl⟩
  case escalationResolved _ _ _ _ modifiedContext =>
    cases handled
    cases modifiedContext <;> exact ⟨rfl, rfl⟩
  case sideEffectIntentRecorded =>
    cases handled
    unfold onEffectIntent trackEffects
    dsimp only
    split <;> exact ⟨rfl, rfl⟩
  case sideEffectExecuted =>
    cases handled
    unfold onEffectExecuted trackEffects
    dsimp only
    split <;> exact ⟨rfl, rfl⟩
  case costCharged =>
    cases handled
    unfold onCost
    simp only
    split <;> exact ⟨rfl, rfl⟩
  all_goals
    cases handled
    exact ⟨rfl, rfl⟩

end Handlers

/-! ## Runs of the fold -/

section Runs

variable {definition : Option WorkflowDefinition} {first second : List Event} {expected : Nat}

theorem foldFrom_append (expected : Nat) (state : Option WorkflowInstance)
    (first second : List Event) : foldFrom definition expected state (first ++ second) =
      foldFrom definition expected state first >>= fun middle =>
        foldFrom definition (expected + first.length) middle second := by
  induction first generalizing expected state with
  | nil => rfl
  | cons event rest ih =>
    simp only [List.cons_append, foldFrom, ih, bind_assoc, List.length_cons]
    congr 1
    funext next
    congr 1
    funext middle
    congr 1
    omega

/-- What one accepted event has passed. -/
theorem foldEvent_eq_ok {state : Option WorkflowInstance} {event : Event} :
    foldEvent definition expected state event = .ok next ↔
      event.sequence = expected ∧ ∃ opened handled, openInstance state event = .ok opened ∧
        handle definition opened event = .ok handled ∧
          next = { handled with updatedAt := event.occurredAt, version := event.sequence } := by
  unfold foldEvent
  by_cases contiguous : event.sequence = expected
  · rw [if_neg (by simpa using contiguous)]
    constructor
    · intro accepted
      obtain ⟨opened, openedOk, accepted⟩ := bind_eq_ok.mp accepted
      obtain ⟨handled, handledOk, accepted⟩ := bind_eq_ok.mp accepted
      cases accepted
      exact ⟨contiguous, opened, handled, openedOk, handledOk, rfl⟩
    · rintro ⟨_, opened, handled, openedOk, handledOk, rfl⟩
      simp [openedOk, handledOk, bind, Except.bind, pure, Except.pure]
  · rw [if_pos contiguous]
    simp [contiguous, throw, throwThe, MonadExceptOf.throw, bind, Except.bind]

/-- An accepted stream on top of an instance: its first event is handled. -/
theorem foldFrom_cons_eq_ok {event : Event} {rest : List Event} {result : Option WorkflowInstance}
    (accepted : foldFrom definition expected (some base) (event :: rest) = .ok result) :
    ∃ handled, handle definition base event = .ok handled ∧ foldFrom definition (expected + 1)
      (some { handled with updatedAt := event.occurredAt, version := event.sequence }) rest =
        .ok result := by
  obtain ⟨next, nextOk, accepted⟩ := bind_eq_ok.mp accepted
  obtain ⟨_, opened, handled, openedOk, handledOk, rfl⟩ := foldEvent_eq_ok.mp nextOk
  cases openedOk
  exact ⟨handled, handledOk, accepted⟩

/-- A nonempty accepted stream ends in an instance whose version is the number
of its last event, and its numbers are contiguous. -/
theorem foldFrom_eq_ok {state result : Option WorkflowInstance}
    (accepted : foldFrom definition expected state events = .ok result) :
    events.map Event.sequence = List.range' expected events.length ∧ (events = [] ∧ result = state ∨
        ∃ inst, result = some inst ∧ inst.version + 1 = expected + events.length) := by
  induction events generalizing expected state with
  | nil =>
    cases accepted
    exact ⟨rfl, .inl ⟨rfl, rfl⟩⟩
  | cons event rest ih =>
    obtain ⟨next, nextOk, accepted⟩ := bind_eq_ok.mp accepted
    obtain ⟨contiguous, _, handled, _, _, stamped⟩ := foldEvent_eq_ok.mp nextOk
    obtain ⟨numbers, ended⟩ := ih accepted
    refine ⟨by simp [numbers, contiguous, List.range'_succ], .inr ?_⟩
    rcases ended with ⟨rfl, rfl⟩ | ⟨inst, rfl, version⟩
    · exact ⟨next, rfl, by simp [stamped, contiguous]⟩
    · refine ⟨inst, rfl, ?_⟩
      simp only [List.length_cons]
      omega

private theorem fold_eq_ok {base : Option WorkflowInstance} :
    fold events definition base = .ok inst ↔
      foldFrom definition ((base.map WorkflowInstance.version).getD 0 + 1) base events =
        .ok (some inst) := by
  unfold fold
  cases foldFrom definition ((base.map WorkflowInstance.version).getD 0 + 1) base events with
  | error failure => simp [bind, Except.bind]
  | ok result =>
    cases result with
    | none => simp [bind, Except.bind, throw, throwThe, MonadExceptOf.throw]
    | some folded => simp [bind, Except.bind, pure, Except.pure]

theorem fold_none_eq_ok : fold events definition = .ok inst ↔
      foldFrom definition 1 none events = .ok (some inst) :=
  fold_eq_ok

theorem fold_some_eq_ok : fold events definition (some base) = .ok inst ↔
      foldFrom definition (base.version + 1) (some base) events = .ok (some inst) :=
  fold_eq_ok

variable (folded : fold events definition = .ok inst)

include folded

/-- The version of an instance folded from genesis is the number of its events. -/
theorem version_of_fold : inst.version = events.length := by
  have accepted := fold_none_eq_ok.mp folded
  rcases (foldFrom_eq_ok accepted).2 with ⟨_, absent⟩ | ⟨last, same, version⟩
  · cases absent
  · cases same
    omega

theorem sequence_of_fold : events.map Event.sequence = List.range' 1 events.length :=
  (foldFrom_eq_ok (fold_none_eq_ok.mp folded)).1

theorem ne_nil_of_fold : events ≠ [] := by
  rintro rfl
  cases fold_none_eq_ok.mp folded

omit folded

/-- Folding more events on top of a folded instance is folding the longer
stream. -/
theorem fold_append (folded : fold first definition = .ok base) :
    fold (first ++ second) definition = .ok inst ↔
      fold second definition (some base) = .ok inst := by
  rw [fold_none_eq_ok, fold_some_eq_ok, foldFrom_append, fold_none_eq_ok.mp folded,
    version_of_fold folded, Nat.add_comm 1]
  rfl

/-- Every initial part of an accepted stream is accepted. -/
theorem exists_fold_of_append (nonempty : first ≠ [])
    (folded : fold (first ++ second) definition = .ok inst) :
    ∃ base, fold first definition = .ok base ∧ fold second definition (some base) = .ok inst := by
  have accepted := fold_none_eq_ok.mp folded
  rw [foldFrom_append] at accepted
  obtain ⟨middle, firstOk, _⟩ := bind_eq_ok.mp accepted
  rcases (foldFrom_eq_ok firstOk).2 with ⟨empty, _⟩ | ⟨base, rfl, _⟩
  · exact absurd empty nonempty
  · have baseOk := fold_none_eq_ok.mpr firstOk
    exact ⟨base, baseOk, (fold_append baseOk).mp folded⟩

/-- What no event of a stream changes is as in the base. -/
theorem fixed_of_fold_base {α : Type} (part : WorkflowInstance → α)
    (stamped : ∀ inst updatedAt version,
      part { inst with updatedAt := updatedAt, version := version } = part inst)
    (kept : ∀ event ∈ events, ∀ current next, handle definition current event = .ok next →
      part next = part current)
    (folded : fold events definition (some base) = .ok inst) : part inst = part base := by
  have accepted := fold_some_eq_ok.mp folded
  generalize base.version + 1 = expected at accepted
  clear folded
  induction events generalizing base expected with
  | nil =>
    cases accepted
    rfl
  | cons event rest ih =>
    obtain ⟨handled, handledOk, accepted⟩ := foldFrom_cons_eq_ok accepted
    have first := kept event List.mem_cons_self base handled handledOk
    refine (ih (fun other member => kept other (List.mem_cons_of_mem _ member)) _ accepted).trans ?_
    exact (stamped handled _ _).trans first

theorem owner_of_fold_base
    (folded : fold events definition (some base) = .ok inst) : inst.owner = base.owner :=
  fixed_of_fold_base WorkflowInstance.owner (fun _ _ _ => rfl)
    (fun _ _ _ _ handled => (fields_of_handle handled).1) folded

/-- The owner of an instance is the one its genesis event names. -/
theorem owner_of_fold {first : Event} {rest : List Event}
    (folded : fold (first :: rest) definition = .ok inst) : inst.owner = first.owner := by
  have split : fold ([first] ++ rest) definition = .ok inst := folded
  obtain ⟨base, baseOk, restOk⟩ := exists_fold_of_append (by simp) split
  rw [owner_of_fold_base restOk]
  obtain ⟨next, nextOk, result⟩ := bind_eq_ok.mp (fold_none_eq_ok.mp baseOk)
  cases result
  obtain ⟨_, opened, handled, openedOk, handledOk, rfl⟩ := foldEvent_eq_ok.mp nextOk
  have owner := (fields_of_handle handledOk).1
  refine owner.trans ?_
  unfold openInstance at openedOk
  cases payload : first.payload <;> rw [payload] at openedOk <;> cases openedOk
  rfl

end Runs

end AgentForge.Events
