import AgentForge.Events.FoldLaws

/-!
# Folding with and without a definition

A definition changes a fold in one way only: genesis events add the initial
state of every step.  Handlers read a missing step as an initial one, so a fold
with a definition and a fold without one raise the same errors and end in
instances that differ by initial states of the definition's steps.
-/

namespace AgentForge.Events

open Domain Library

variable {seeds : List String} {state state' : Option WorkflowInstance} {events : List Event}
  {stepId : String}

/-- Step states extended by initial states of the listed steps. -/
def Covers (seeds : List String) (bare seeded : Dict String StepState) : Prop :=
  ∀ stepId, seeded.get? stepId =
    (bare.get? stepId).or (if stepId ∈ seeds then some { stepId := stepId } else none)

/-- The same instance up to initial states of the listed steps. -/
def Seeded (seeds : List String) (bare seeded : WorkflowInstance) : Prop :=
  ∃ states, seeded = { bare with stepStates := states } ∧ Covers seeds bare.stepStates states

/-- The steps an event seeds when it is folded with a definition. -/
def seedsOf (definition : Option WorkflowDefinition) (event : Event) : List String :=
  match event.payload with
  | .instanceCreated .. => (definition.map WorkflowDefinition.stepIds).getD []
  | _ => []

theorem Seeded.refl (inst : WorkflowInstance) : Seeded [] inst inst :=
  ⟨inst.stepStates, rfl, by simp [Covers]⟩

theorem Covers.set {bare seeded : Dict String StepState}
    (covers : Covers seeds bare seeded) (stepId : String) (state : StepState) :
    Covers seeds (bare.set stepId state) (seeded.set stepId state) := by
  intro other
  rw [Dict.get?_set, Dict.get?_set]
  by_cases same : other = stepId
  · simp [same]
  · simpa [same] using covers other

theorem get?_seedAll (steps : List WorkflowStep) (states : Dict String StepState)
    (stepId : String) :
    (steps.foldl (fun states step => states.setDefault step.stepId { stepId := step.stepId })
        states).get? stepId = (states.get? stepId).or
        (if stepId ∈ steps.map WorkflowStep.stepId then some { stepId := stepId } else none) := by
  induction steps generalizing states with
  | nil => simp
  | cons step rest ih =>
    rw [List.foldl_cons, ih, Dict.get?_setDefault, Option.or_assoc]
    by_cases same : stepId = step.stepId
    · simp [same]
    · simp [same]

/-- Two seedings of one instance are the same exactly if the larger one adds
nothing to the smaller one. -/
theorem Seeded.same_iff {seeds more : List String} {bare seeded seededMore : WorkflowInstance}
    (related : Seeded seeds bare seeded) (relatedMore : Seeded more bare seededMore)
    (included : ∀ stepId ∈ seeds, stepId ∈ more) : seeded.Same seededMore ↔
      ∀ stepId ∈ more, stepId ∈ seeds ∨ stepId ∈ bare.stepStates.keys := by
  obtain ⟨states, rfl, covers⟩ := related
  obtain ⟨statesMore, rfl, coversMore⟩ := relatedMore
  constructor
  · rintro ⟨_, same⟩ stepId member
    have lookup := same stepId
    rw [covers, coversMore, if_pos member] at lookup
    cases stored : bare.stepStates.get? stepId with
    | some state => exact .inr (Dict.mem_keys_iff_get?.mpr ⟨state, stored⟩)
    | none =>
      by_cases seed : stepId ∈ seeds
      · exact .inl seed
      · simp [stored, seed] at lookup
  · intro nothingNew
    refine ⟨rfl, ?_⟩
    intro stepId
    rw [covers, coversMore]
    by_cases member : stepId ∈ more
    · rcases nothingNew stepId member with seed | known
      · simp [member, seed]
      · obtain ⟨state, stored⟩ := Dict.mem_keys_iff_get?.mp known
        simp [stored]
    · have unseeded : stepId ∉ seeds := fun seed => member (included stepId seed)
      simp [member, unseeded]

theorem Seeded.mem_keys {bare seeded : WorkflowInstance} (related : Seeded seeds bare seeded)
    (seed : stepId ∈ seeds) : stepId ∈ seeded.stepStates.keys := by
  obtain ⟨states, rfl, covers⟩ := related
  rw [Dict.mem_keys_iff_get?, covers, if_pos seed]
  cases bare.stepStates.get? stepId with
  | some state => exact ⟨state, rfl⟩
  | none => exact ⟨_, rfl⟩

section Simulation

variable {seeds : List String} {bare seeded : WorkflowInstance}

variable (related : Seeded seeds bare seeded)

include related

theorem Seeded.stepOr (stepId : String) : seeded.stepOr stepId = bare.stepOr stepId := by
  obtain ⟨states, rfl, covers⟩ := related
  unfold WorkflowInstance.stepOr
  rw [covers stepId]
  cases bare.stepStates.get? stepId with
  | some state => simp
  | none =>
    by_cases seed : stepId ∈ seeds
    · simp [seed]
    · simp [seed]

theorem Seeded.modifyStep (stepId : String) (change : StepState → StepState) :
    Seeded seeds (bare.modifyStep stepId change) (seeded.modifyStep stepId change) := by
  unfold WorkflowInstance.modifyStep
  rw [related.stepOr]
  obtain ⟨states, rfl, covers⟩ := related
  exact ⟨states.set stepId _, rfl, covers.set stepId _⟩

omit related in
/-- Changes that leave the step states alone and do not depend on them. -/
theorem Seeded.update (change : WorkflowInstance → WorkflowInstance)
    (keeps : ∀ inst, (change inst).stepStates = inst.stepStates) (commutes : ∀ inst states,
      change { inst with stepStates := states } = { change inst with stepStates := states })
    (related : Seeded seeds bare seeded) : Seeded seeds (change bare) (change seeded) := by
  obtain ⟨states, rfl, covers⟩ := related
  exact ⟨states, commutes bare states, by rwa [keeps]⟩

theorem Seeded.setStepStatus (stepId : String) (target : StepStatus) :
    Agree (Seeded seeds) (setStepStatus bare stepId target)
      (setStepStatus seeded stepId target) := by
  unfold Events.setStepStatus
  rw [related.stepOr]
  by_cases allowed : stepTransitionAllowed (bare.stepOr stepId).status target = true
  · rw [if_pos allowed, if_pos allowed]
    exact related.modifyStep stepId _
  · simp [allowed, Agree]

theorem Seeded.status : seeded.status = bare.status := by
  obtain ⟨_, rfl, _⟩ := related
  rfl

theorem Seeded.moveWorkflow (target : WorkflowStatus) :
    Agree (Seeded seeds) (moveWorkflow bare target) (moveWorkflow seeded target) := by
  unfold Events.moveWorkflow
  rw [related.status]
  split
  · rfl
  · exact related.update (fun inst => { inst with status := target })
      (fun _ => rfl) (fun _ _ => rfl)

theorem Seeded.setWorkflowStatus (target : WorkflowStatus) (declaredFrom : Option WorkflowStatus) :
    Agree (Seeded seeds) (setWorkflowStatus bare target declaredFrom)
      (setWorkflowStatus seeded target declaredFrom) := by
  cases declaredFrom with
  | none => exact related.moveWorkflow target
  | some declared =>
    unfold Events.setWorkflowStatus
    rw [related.status]
    simp only
    split
    · rfl
    · exact related.moveWorkflow target

theorem Seeded.onCreated (context : JsonDict) (budgetLimitUsd : Option Rat) (occurredAt : Time)
    (definition : Option WorkflowDefinition) :
    Seeded (seeds ++ (definition.map WorkflowDefinition.stepIds).getD [])
      (onCreated bare context budgetLimitUsd occurredAt none)
      (onCreated seeded context budgetLimitUsd occurredAt definition) := by
  obtain ⟨states, rfl, covers⟩ := related
  cases definition with
  | none => exact ⟨states, rfl, by rwa [Option.map_none, Option.getD_none, List.append_nil]⟩
  | some definition =>
    refine ⟨_, rfl, ?_⟩
    intro stepId
    rw [get?_seedAll, covers stepId, Option.or_assoc]
    congr 1
    by_cases seed : stepId ∈ seeds
    · simp [seed]
    · simp [seed, WorkflowDefinition.stepIds]

theorem Seeded.onRequeued (stepId : Option String) :
    Agree (Seeded seeds) (onRequeued bare stepId) (onRequeued seeded stepId) := by
  refine (related.setWorkflowStatus .running none).bind ?_
  intro moved moved' relatedMoved
  cases stepId with
  | none => exact relatedMoved
  | some stepId => exact relatedMoved.modifyStep stepId _

theorem Seeded.onStepStatus (stepId : String) (fromStatus toStatus : StepStatus) :
    Agree (Seeded seeds) (onStepStatus bare stepId fromStatus toStatus)
      (onStepStatus seeded stepId fromStatus toStatus) := by
  unfold Events.onStepStatus
  rw [related.stepOr]
  split
  · rfl
  · exact related.setStepStatus stepId toStatus

theorem Seeded.onCost (stepId : Option String) (amountUsd : Rat) (tokensInput tokensOutput : Int) :
    Seeded seeds (onCost bare stepId amountUsd tokensInput tokensOutput)
      (onCost seeded stepId amountUsd tokensInput tokensOutput) := by
  have charged := related.update (fun inst =>
    { inst with
      costAccumulatedUsd := inst.costAccumulatedUsd + amountUsd
      tokensUsed :=
        { input := inst.tokensUsed.input + tokensInput
          output := inst.tokensUsed.output + tokensOutput } })
    (fun _ => rfl) (fun _ _ => rfl)
  unfold Events.onCost
  cases stepId.filter (· ≠ "") with
  | none => exact charged
  | some stepId => exact charged.modifyStep stepId _

theorem Seeded.onEscalationRaised (escalation : Escalation) :
    Agree (Seeded seeds) (onEscalationRaised bare escalation)
      (onEscalationRaised seeded escalation) := by
  have held : Agree (Seeded seeds) (holdStep bare escalation.stepId)
      (holdStep seeded escalation.stepId) := by
    unfold holdStep
    split
    · exact related
    · exact related.setStepStatus _ _
  refine held.bind ?_
  intro held held' relatedHeld
  exact relatedHeld.update (fun inst => { inst with
    escalations := inst.escalations ++
      [{ escalationId := escalation.escalationId, stepId := escalation.stepId,
         reason := escalation.reason, deadline := escalation.deadline }] })
    (fun _ => rfl) (fun _ _ => rfl)

theorem Seeded.onEscalationResolved (escalationId : String) (modifiedContext : Option JsonDict) :
    Seeded seeds (onEscalationResolved bare escalationId modifiedContext)
      (onEscalationResolved seeded escalationId modifiedContext) := by
  obtain ⟨states, rfl, covers⟩ := related
  cases modifiedContext with
  | none => exact ⟨states, rfl, covers⟩
  | some changes => exact ⟨states, rfl, covers⟩

theorem Seeded.onEffectIntent (stepId effectName key : String) :
    Seeded seeds (onEffectIntent bare stepId effectName key)
      (onEffectIntent seeded stepId effectName key) := by
  obtain ⟨states, rfl, covers⟩ := related
  unfold Events.onEffectIntent
  simp only
  split
  · exact ⟨states, rfl, covers⟩
  · exact ⟨states, rfl, covers⟩

theorem Seeded.onEffectExecuted (stepId key : String) :
    Seeded seeds (onEffectExecuted bare stepId key) (onEffectExecuted seeded stepId key) := by
  obtain ⟨states, rfl, covers⟩ := related
  unfold Events.onEffectExecuted
  simp only
  split
  · exact ⟨states, rfl, covers⟩
  · exact ⟨states, rfl, covers⟩

/-- One event, handled without and with a definition. -/
theorem Seeded.handle (definition : Option WorkflowDefinition) (event : Event) :
    Agree (Seeded (seeds ++ seedsOf definition event)) (handle none bare event)
      (handle definition seeded event) := by
  unfold Events.handle seedsOf
  cases event.payload with
  | instanceCreated _ _ context budgetLimitUsd =>
    exact related.onCreated context budgetLimitUsd event.occurredAt definition
  | instanceStatusChanged fromStatus toStatus _ =>
    rw [List.append_nil]
    refine (related.setWorkflowStatus toStatus (some fromStatus)).bind ?_
    rintro moved moved' ⟨states, rfl, covers⟩
    simp only
    split
    · exact ⟨states, rfl, covers⟩
    · exact ⟨states, rfl, covers⟩
  | instanceCompleted outputs =>
    rw [List.append_nil]
    refine (related.setWorkflowStatus .completed none).bind ?_
    rintro moved moved' ⟨states, rfl, covers⟩
    simp only
    split
    · exact ⟨states, rfl, covers⟩
    · exact ⟨states, rfl, covers⟩
  | instanceFailed _ _ =>
    rw [List.append_nil]
    refine (related.setWorkflowStatus .failed none).bind ?_
    rintro moved moved' ⟨states, rfl, covers⟩
    exact ⟨states, rfl, covers⟩
  | workflowRequeued stepId _ _ =>
    rw [List.append_nil]
    exact related.onRequeued stepId
  | workflowBudgetAdjusted newLimitUsd _ _ =>
    rw [List.append_nil]
    exact related.update (fun inst => { inst with budgetLimitUsd := newLimitUsd })
      (fun _ => rfl) (fun _ _ => rfl)
  | stepStatusChanged stepId fromStatus toStatus _ =>
    rw [List.append_nil]
    exact related.onStepStatus stepId fromStatus toStatus
  | stepStarted stepId attempt _ modelSelected =>
    rw [List.append_nil]
    refine (related.setStepStatus stepId .running).bind ?_
    intro moved moved' relatedMoved
    exact relatedMoved.modifyStep stepId _
  | stepCompleted stepId _ output modelUsed =>
    rw [List.append_nil]
    refine (related.setStepStatus stepId .completed).bind ?_
    intro moved moved' relatedMoved
    exact relatedMoved.modifyStep stepId _
  | stepFailed stepId attempt errorType errorMessage _ =>
    rw [List.append_nil]
    refine (related.setStepStatus stepId .failed).bind ?_
    intro moved moved' relatedMoved
    exact (relatedMoved.modifyStep stepId _).update (fun inst => { inst with
      errorHistory := inst.errorHistory ++
        [{ stepId := stepId, errorType := errorType, errorMessage := errorMessage,
           occurredAt := event.occurredAt, attempt := attempt }] })
      (fun _ => rfl) (fun _ _ => rfl)
  | stepRetryScheduled stepId _ runAt =>
    rw [List.append_nil]
    exact related.modifyStep stepId _
  | stepSkipped stepId _ =>
    rw [List.append_nil]
    exact related.setStepStatus stepId .skipped
  | stepCompensated stepId _ =>
    rw [List.append_nil]
    exact related.setStepStatus stepId .compensated
  | llmCallRecorded stepId _ recording =>
    rw [List.append_nil]
    exact related.modifyStep stepId _
  | toolCallRecorded _ _ _ _ _ =>
    rw [List.append_nil]
    exact related
  | sideEffectIntentRecorded stepId effectName key _ _ =>
    rw [List.append_nil]
    exact related.onEffectIntent stepId effectName key
  | sideEffectExecuted stepId key _ _ =>
    rw [List.append_nil]
    exact related.onEffectExecuted stepId key
  | sideEffectCompensated _ key _ =>
    rw [List.append_nil]
    exact related.update (fun inst => onEffectCompensated inst key)
      (fun _ => rfl) (fun _ _ => rfl)
  | escalationRaised escalation =>
    rw [List.append_nil]
    exact related.onEscalationRaised escalation
  | escalationResolved escalationId _ _ _ modifiedContext =>
    rw [List.append_nil]
    exact related.onEscalationResolved escalationId modifiedContext
  | escalationTimedOut escalationId _ _ =>
    rw [List.append_nil]
    exact related.update (fun inst => resolveEscalation inst escalationId)
      (fun _ => rfl) (fun _ _ => rfl)
  | costCharged stepId amountUsd _ tokensInput tokensOutput =>
    rw [List.append_nil]
    exact related.onCost stepId amountUsd tokensInput tokensOutput
  | budgetExceeded stepId projected remaining scope =>
    rw [List.append_nil]
    exact related.update (fun inst =>
        onBudgetExceeded inst stepId projected remaining scope event.occurredAt)
      (fun _ => rfl) (fun _ _ => rfl)

end Simulation

/-! ## Whole streams -/

/-- States of two folds of one stream: both not opened yet, or both opened. -/
def SeededState (seeds : List String) :
    Option WorkflowInstance → Option WorkflowInstance → Prop
  | none, none => seeds = []
  | some bare, some seeded => Seeded seeds bare seeded
  | _, _ => False

variable (related : SeededState seeds state state')

include related

private theorem SeededState.openInstance (event : Event) :
    Agree (Seeded seeds) (openInstance state event) (openInstance state' event) := by
  cases state with
  | some bare =>
    cases state' with
    | some seeded => exact related
    | none => exact related.elim
  | none =>
    cases state' with
    | some seeded => exact related.elim
    | none =>
      cases related
      unfold Events.openInstance
      cases event.payload
      case instanceCreated => exact Seeded.refl _
      all_goals rfl

variable (definition : Option WorkflowDefinition)

include definition

private theorem SeededState.foldEvent (expected : Nat) (event : Event) :
    Agree (Seeded (seeds ++ seedsOf definition event)) (foldEvent none expected state event)
      (foldEvent definition expected state' event) := by
  unfold Events.foldEvent
  by_cases contiguous : event.sequence ≠ expected
  · rw [if_pos contiguous, if_pos contiguous]
    rfl
  · rw [if_neg contiguous, if_neg contiguous]
    refine (related.openInstance event).bind ?_
    intro opened opened' relatedOpened
    refine (relatedOpened.handle definition event).bind ?_
    rintro handled handled' ⟨states, rfl, covers⟩
    exact ⟨states, rfl, covers⟩

theorem SeededState.foldFrom (expected : Nat) (events : List Event) :
    Agree (SeededState (seeds ++ events.flatMap (seedsOf definition)))
      (foldFrom none expected state events) (foldFrom definition expected state' events) := by
  induction events generalizing seeds expected state state' with
  | nil => simpa [Events.foldFrom, pure, Except.pure, Agree] using related
  | cons event rest ih =>
    refine (related.foldEvent definition expected event).bind ?_
    intro next next' relatedNext
    rw [List.flatMap_cons, ← List.append_assoc]
    exact ih (show SeededState _ (some next) (some next') from relatedNext) (expected + 1)

omit related

omit definition in
private theorem agree_of_foldFrom {first second : Except FoldError (Option WorkflowInstance)}
    (agree : Agree (SeededState seeds) first second) :
    Agree (Seeded seeds)
      (first >>= fun state => match state with
        | some inst => pure inst
        | none => throw FoldError.emptyStream)
      (second >>= fun state => match state with
        | some inst => pure inst
        | none => throw FoldError.emptyStream) := by
  refine agree.bind ?_
  intro state state' related
  cases state with
  | some bare =>
    cases state' with
    | some seeded => exact related
    | none => exact related.elim
  | none =>
    cases state' with
    | some seeded => exact related.elim
    | none => rfl

/-- Folding a stream without and with a definition. -/
theorem fold_agree (events : List Event) :
    Agree (Seeded (events.flatMap (seedsOf definition))) (fold events) (fold events definition) :=
  agree_of_foldFrom
    (SeededState.foldFrom (show SeededState [] none none from rfl) definition 1 events)

/-- Folding a tail on top of one base without and with a definition. -/
theorem fold_base_agree (base : WorkflowInstance) (events : List Event) :
    Agree (Seeded (events.flatMap (seedsOf definition))) (fold events none (some base))
      (fold events definition (some base)) :=
  agree_of_foldFrom
    (SeededState.foldFrom (show SeededState [] (some base) (some base) from Seeded.refl base)
      definition (base.version + 1) events)

omit definition

theorem mem_flatMap_seedsOf {definition : WorkflowDefinition} :
    stepId ∈ events.flatMap (seedsOf (some definition)) ↔
      (∃ event ∈ events, event.isGenesis = true) ∧ stepId ∈ definition.stepIds := by
  have perEvent : ∀ event : Event, stepId ∈ seedsOf (some definition) event ↔
      event.isGenesis = true ∧ stepId ∈ definition.stepIds := by
    intro event
    unfold seedsOf Event.isGenesis
    cases event.payload <;> simp
  simp only [List.mem_flatMap, perEvent]
  constructor
  · rintro ⟨event, member, genesis, step⟩
    exact ⟨⟨event, member, genesis⟩, step⟩
  · rintro ⟨⟨event, member, genesis⟩, step⟩
    exact ⟨event, member, genesis, step⟩

/-- An accepted stream opens with a genesis event. -/
theorem exists_genesis_of_fold {definition : Option WorkflowDefinition} {inst : WorkflowInstance}
    (folded : fold events definition = .ok inst) : ∃ event ∈ events, event.isGenesis = true := by
  cases events with
  | nil => exact absurd rfl (ne_nil_of_fold folded)
  | cons event rest =>
    refine ⟨event, List.mem_cons_self, ?_⟩
    obtain ⟨_, first, _⟩ := bind_eq_ok.mp (fold_none_eq_ok.mp folded)
    obtain ⟨_, opened, _, openedOk, _⟩ := foldEvent_eq_ok.mp first
    unfold openInstance at openedOk
    unfold Event.isGenesis
    cases payload : event.payload <;>
      simp_all [throw, throwThe, MonadExceptOf.throw]

end AgentForge.Events
