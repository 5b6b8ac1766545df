import AgentForge.Guarantees.Folding
import Mathlib.Algebra.Group.Prod
import Mathlib.Algebra.BigOperators.Pi

/-!
# Where costs come from

A fold as bookkeeping: the bill of an instance, the bills of its steps and the
sum of the latter are three accounts, every `CostCharged` is a posting to them
and every other event posts nothing.  A charge whose step identifier is empty is
a charge without a step.
-/

namespace AgentForge.Guarantees

open Domain Events Library

/-- An amount with the tokens it was paid for, input and output. -/
abbrev Bill := Rat × Int × Int

def instanceBill (inst : WorkflowInstance) : Bill :=
  (inst.costAccumulatedUsd, inst.tokensUsed.input, inst.tokensUsed.output)

def stepBill (state : StepState) : Bill :=
  (state.costUsd, state.tokens.input, state.tokens.output)

/-- What an event charges. -/
def chargeOf : Payload → Bill
  | .costCharged _ amountUsd _ tokensInput tokensOutput => (amountUsd, tokensInput, tokensOutput)
  | _ => 0

/-- The step identifier of a charge. -/
def namedStep : Payload → Option String
  | .costCharged stepId _ _ _ _ => stepId
  | _ => none

/-- The step a charge is booked on; an empty identifier names none. -/
def bookedStep (payload : Payload) : Option String :=
  (namedStep payload).filter (· ≠ "")

/-- The charges of the events that satisfy a condition, added up. -/
def chargesWhere (counts : Payload → Bool) (events : List Event) : Bill :=
  ((events.filter fun event => counts event.payload).map fun event => chargeOf event.payload).sum

/-- Bills of an instance are the sums of the charges in its events. -/
structure BilledBy (events : List Event) (inst : WorkflowInstance) : Prop where
  total : instanceBill inst = chargesWhere (fun _ => true) events
  step : ∀ stepId, stepBill (inst.stepOr stepId) =
    chargesWhere (fun payload => bookedStep payload = some stepId) events
  stepTotal : (inst.stepStates.values.map stepBill).sum =
    instanceBill inst - chargesWhere (fun payload => bookedStep payload = none) events

/-! ## Accounts -/

/-- The bill of the instance, the bill of every step, and the sum of these. -/
abbrev Books := Bill × (String → Bill) × Bill

def booksOf (inst : WorkflowInstance) : Books :=
  (instanceBill inst, fun stepId => stepBill (inst.stepOr stepId),
    (inst.stepStates.values.map stepBill).sum)

/-- What an event adds to the accounts. -/
def posting (payload : Payload) : Books :=
  (chargeOf payload,
    fun stepId => if bookedStep payload = some stepId then chargeOf payload else 0,
    if bookedStep payload = none then 0 else chargeOf payload)

section Handlers

variable {inst next : WorkflowInstance}

/-- Accounts depend on the step states and on the instance's own bill. -/
private theorem booksOf_congr (states : next.stepStates = inst.stepStates)
    (bill : instanceBill next = instanceBill inst) : booksOf next = booksOf inst := by
  unfold booksOf WorkflowInstance.stepOr
  rw [states, bill]

private theorem elim_get?_stepBill (stepId : String) :
    (inst.stepStates.get? stepId).elim 0 stepBill = stepBill (inst.stepOr stepId) := by
  unfold WorkflowInstance.stepOr
  cases inst.stepStates.get? stepId <;> rfl

/-- A change of one step moves the difference of its bills. -/
private theorem booksOf_modifyStep (stepId : String) (change : StepState → StepState)
    (amount : Bill)
    (charged : stepBill (change (inst.stepOr stepId)) = stepBill (inst.stepOr stepId) + amount) :
    booksOf (inst.modifyStep stepId change) = booksOf inst +
      (0, fun other => if some stepId = some other then amount else 0, amount) := by
  have sum := Dict.sum_values_set stepBill inst.stepStates stepId (change (inst.stepOr stepId))
  rw [elim_get?_stepBill, charged, ← add_assoc, add_right_comm] at sum
  refine Prod.ext (by simp [booksOf]; rfl) (Prod.ext ?_ (add_right_cancel sum))
  funext other
  change stepBill ((inst.modifyStep stepId change).stepOr other) = _
  rw [WorkflowInstance.stepOr_modifyStep]
  by_cases same : other = stepId
  · subst same
    simpa [booksOf] using charged
  · simp [booksOf, same, Ne.symm same]

private theorem booksOf_modifyStep_same (inst : WorkflowInstance) (stepId : String)
    (change : StepState → StepState) (kept : ∀ state, stepBill (change state) = stepBill state) :
    booksOf (inst.modifyStep stepId change) = booksOf inst := by
  have unchanged :
      ((0, fun other => if some stepId = some other then 0 else 0, 0) : Books) = 0 := by
    simp only [ite_self]
    rfl
  rw [booksOf_modifyStep stepId change 0 (by rw [kept, add_zero]), unchanged, add_zero]

/-- Initial step states are stored without a bill. -/
private theorem sum_stepBill_seedAll (steps : List WorkflowStep) (states : Dict String StepState) :
    ((steps.foldl (fun states step => states.setDefault step.stepId { stepId := step.stepId })
        states).values.map stepBill).sum = (states.values.map stepBill).sum := by
  induction steps generalizing states with
  | nil => rfl
  | cons step rest ih =>
    rw [List.foldl_cons, ih]
    unfold Dict.setDefault
    cases stored : states.get? step.stepId with
    | some state => rfl
    | none =>
      have sum := Dict.sum_values_set stepBill states step.stepId { stepId := step.stepId }
      rw [stored, Option.elim_none, add_zero] at sum
      exact sum.trans (add_zero _)

private theorem booksOf_onCreated (context : JsonDict) (budgetLimitUsd : Option Rat)
    (occurredAt : Time) (definition : Option WorkflowDefinition) :
    booksOf (onCreated inst context budgetLimitUsd occurredAt definition) = booksOf inst := by
  have related := (Seeded.refl inst).onCreated context budgetLimitUsd occurredAt definition
  cases definition with
  | none => exact booksOf_congr rfl rfl
  | some definition =>
    refine Prod.ext rfl (Prod.ext ?_ (sum_stepBill_seedAll definition.steps inst.stepStates))
    funext stepId
    exact congrArg stepBill (related.stepOr stepId)

private theorem booksOf_onCost (stepId : Option String) (amountUsd : Rat) (model : Option String)
    (tokensInput tokensOutput : Int) :
    booksOf (onCost inst stepId amountUsd tokensInput tokensOutput) =
      booksOf inst + posting (.costCharged stepId amountUsd model tokensInput tokensOutput) := by
  unfold onCost posting bookedStep namedStep
  cases stepId.filter (· ≠ "") with
  | none =>
    refine Prod.ext rfl (Prod.ext ?_ (add_zero _).symm)
    funext stepId
    exact (add_zero _).symm
  | some stepId =>
    simp only
    rw [booksOf_modifyStep stepId _ (amountUsd, tokensInput, tokensOutput) rfl]
    refine Prod.ext ?_ (Prod.ext ?_ ?_)
    · simp [booksOf, instanceBill, chargeOf]
    · rfl
    · rfl

/-- Only a charge posts something. -/
private theorem posting_eq_zero {payload : Payload} (free : chargeOf payload = 0) :
    posting payload = 0 := by
  unfold posting
  simp only [free, ite_self]
  rfl

/-- A handled event posts its charge. -/
theorem booksOf_handle {definition : Option WorkflowDefinition} {event : Event}
    (handled : handle definition inst event = .ok next) :
    booksOf next = booksOf inst + posting event.payload := by
  unfold handle at handled
  cases payload : event.payload <;> rw [payload] at handled
  case costCharged =>
    cases handled
    exact booksOf_onCost _ _ _ _ _
  all_goals
    rw [posting_eq_zero rfl, add_zero]
  case instanceCreated =>
    cases handled
    exact booksOf_onCreated _ _ _ _
  case instanceStatusChanged =>
    obtain ⟨_, _, rfl⟩ := onWorkflowStatus_eq_ok.mp handled
    exact booksOf_congr rfl rfl
  case instanceCompleted =>
    obtain ⟨_, rfl⟩ := onCompleted_eq_ok.mp handled
    exact booksOf_congr rfl rfl
  case instanceFailed =>
    obtain ⟨_, rfl⟩ := onFailed_eq_ok.mp handled
    exact booksOf_congr rfl rfl
  case workflowRequeued stepId _ _ =>
    obtain ⟨_, rfl⟩ := onRequeued_eq_ok.mp handled
    cases stepId with
    | none => exact booksOf_congr rfl rfl
    | some stepId =>
      rw [Option.elim_some, booksOf_modifyStep_same _ stepId requeuedStep fun _ => rfl]
      exact booksOf_congr rfl rfl
  case stepStatusChanged =>
    obtain ⟨_, _, rfl⟩ := onStepStatus_eq_ok.mp handled
    exact booksOf_modifyStep_same _ _ _ fun _ => rfl
  case stepStarted =>
    obtain ⟨_, rfl⟩ := onStepStarted_eq_ok.mp handled
    exact booksOf_modifyStep_same _ _ _ fun _ => rfl
  case stepCompleted =>
    obtain ⟨_, rfl⟩ := onStepCompleted_eq_ok.mp handled
    exact booksOf_modifyStep_same _ _ _ fun _ => rfl
  case stepFailed stepId _ errorType errorMessage _ =>
    obtain ⟨_, rfl⟩ := onStepFailed_eq_ok.mp handled
    have cleared := booksOf_modifyStep_same inst stepId (fun state => { state with
      status := .failed, errorType := errorType, errorMessage := errorMessage,
      recordedLlmCalls := [] }) fun _ => rfl
    rw [← cleared]
    exact booksOf_congr rfl rfl
  case stepSkipped | stepCompensated =>
    obtain ⟨_, rfl⟩ := setStepStatus_eq_ok.mp handled
    exact booksOf_modifyStep_same _ _ _ fun _ => rfl
  case stepRetryScheduled | llmCallRecorded =>
    cases handled
    exact booksOf_modifyStep_same _ _ _ fun _ => rfl
  case escalationRaised escalation =>
    obtain ⟨_, rfl⟩ := onEscalationRaised_eq_ok.mp handled
    by_cases workflowLevel : escalation.stepId = ""
    · rw [if_pos workflowLevel]
      exact booksOf_congr rfl rfl
    · rw [if_neg workflowLevel]
      have held := booksOf_modifyStep_same inst escalation.stepId
        (fun state => { state with status := .waitingApproval }) fun _ => rfl
      rw [← held]
      exact booksOf_congr rfl rfl
  case escalationResolved _ _ _ _ modifiedContext =>
    cases handled
    cases modifiedContext <;> exact booksOf_congr rfl rfl
  case sideEffectIntentRecorded =>
    cases handled
    unfold onEffectIntent
    split <;> exact booksOf_congr rfl rfl
  case sideEffectExecuted =>
    cases handled
    unfold onEffectExecuted
    split <;> exact booksOf_congr rfl rfl
  all_goals
    cases handled
    exact booksOf_congr rfl rfl

end Handlers

/-! ## Whole streams -/

section Runs

variable {definition : Option WorkflowDefinition} {inst : WorkflowInstance} {events : List Event}

private theorem booksOf_foldFrom {expected : Nat} {base : WorkflowInstance}
    (accepted : foldFrom definition expected (some base) events = .ok (some inst)) :
    booksOf inst = booksOf base + (events.map fun event => posting event.payload).sum := by
  induction events generalizing expected base with
  | nil =>
    cases accepted
    exact (add_zero _).symm
  | cons event rest ih =>
    obtain ⟨handled, handledOk, accepted⟩ := foldFrom_cons_eq_ok accepted
    rw [ih accepted, List.map_cons, List.sum_cons, ← add_assoc, ← booksOf_handle handledOk]
    rfl

/-- The accounts of a fold without base are the sums of its postings. -/
private theorem booksOf_fold (folded : fold events definition = .ok inst) :
    booksOf inst = (events.map fun event => posting event.payload).sum := by
  obtain ⟨first, rest, rfl⟩ := List.exists_cons_of_ne_nil (ne_nil_of_fold folded)
  obtain ⟨next, nextOk, accepted⟩ := bind_eq_ok.mp (fold_none_eq_ok.mp folded)
  obtain ⟨_, opened, handled, openedOk, handledOk, rfl⟩ := foldEvent_eq_ok.mp nextOk
  have fresh : booksOf opened = 0 := by
    unfold openInstance at openedOk
    cases payload : first.payload <;> rw [payload] at openedOk <;> cases openedOk
    rfl
  rw [booksOf_foldFrom accepted, List.map_cons, List.sum_cons]
  have opening := booksOf_handle handledOk
  rw [fresh, zero_add] at opening
  rw [← opening]
  rfl

private theorem chargesWhere_cons (counts : Payload → Bool) (event : Event) (rest : List Event) :
    chargesWhere counts (event :: rest) =
      (if counts event.payload then chargeOf event.payload else 0) + chargesWhere counts rest := by
  unfold chargesWhere
  by_cases counted : counts event.payload = true
  · simp [counted]
  · simp [counted]

/-- Charges with and without a condition add up to all charges. -/
private theorem chargesWhere_split (counts : Payload → Bool) (events : List Event) :
    chargesWhere (fun payload => !counts payload) events =
      chargesWhere (fun _ => true) events - chargesWhere counts events := by
  induction events with
  | nil => simp [chargesWhere]
  | cons event rest ih =>
    rw [chargesWhere_cons, chargesWhere_cons, chargesWhere_cons, ih]
    by_cases counted : counts event.payload = true
    · simp [counted]
    · simp [counted, add_sub_assoc]

private theorem sum_posting (events : List Event) :
    (events.map fun event => posting event.payload).sum = (chargesWhere (fun _ => true) events,
        fun stepId => chargesWhere (fun payload => bookedStep payload = some stepId) events,
        chargesWhere (fun payload => !decide (bookedStep payload = none)) events) := by
  induction events with
  | nil => rfl
  | cons event rest ih =>
    rw [List.map_cons, List.sum_cons, ih]
    refine Prod.ext ?_ (Prod.ext ?_ ?_)
    · simp [posting, chargesWhere_cons]
    · funext stepId
      simp [posting, chargesWhere_cons]
    · by_cases booked : bookedStep event.payload = none
      · simp [posting, chargesWhere_cons, booked]
      · simp [posting, chargesWhere_cons, booked]

private theorem billedBy_of_booksOf
    (books : booksOf inst = (events.map fun event => posting event.payload).sum) :
    BilledBy events inst := by
  rw [sum_posting] at books
  have total : instanceBill inst = chargesWhere (fun _ => true) events :=
    congrArg Prod.fst books
  have steps := congrArg (fun books => books.2.1) books
  have sum := congrArg (fun books => books.2.2) books
  refine ⟨total, congrFun steps, ?_⟩
  rw [total, ← chargesWhere_split fun payload => decide (bookedStep payload = none)]
  exact sum

end Runs

/-- The stream that a base has been folded from. -/
def FoldedFrom (seed : Option WorkflowDefinition) (events : List Event) :
    Option WorkflowInstance → Prop
  | none => events = []
  | some base => fold events seed = .ok base

/-- Costs and tokens of a fold are the sums of the charges in the stream of its
base and in its own; an event that is no charge leaves all of them as they
are. -/
theorem costs_are_charges {seed definition : Option WorkflowDefinition}
    {base : Option WorkflowInstance} {first second : List Event} {inst : WorkflowInstance}
    (origin : FoldedFrom seed first base) (folded : fold second definition base = .ok inst) :
    BilledBy (first ++ second) inst ∧
      ∀ prior event rest before after, second = prior ++ event :: rest →
        stateAfter definition base prior = .ok (some before) →
        stateAfter definition base (prior ++ [event]) = .ok (some after) →
        event.payload.eventType ≠ "CostCharged" →
        instanceBill after = instanceBill before ∧
          ∀ stepId, stepBill (after.stepOr stepId) = stepBill (before.stepOr stepId) := by
  constructor
  · apply billedBy_of_booksOf
    cases base with
    | none =>
        cases origin
        exact booksOf_fold folded
    | some base =>
        rw [booksOf_foldFrom (fold_some_eq_ok.mp folded), booksOf_fold origin, List.map_append,
          List.sum_append]
  · intro prior event rest before after _ earlier later free
    rw [stateAfter_cons earlier] at later
    obtain ⟨next, nextOk, result⟩ := bind_eq_ok.mp later
    cases result
    obtain ⟨_, opened, handled, openedOk, handledOk, rfl⟩ := foldEvent_eq_ok.mp nextOk
    cases openedOk
    have uncharged : chargeOf event.payload = 0 := by
      cases payload : event.payload <;> first | rfl | simp [payload, Payload.eventType] at free
    have books := booksOf_handle handledOk
    rw [posting_eq_zero uncharged, add_zero] at books
    exact ⟨congrArg Prod.fst books, congrFun (congrArg (fun books => books.2.1) books)⟩

/-- A retry is scheduled for a step with an empty identifier, and a charge names
it. -/
def chargedWithoutName : List Event :=
  [sampleEvent 1 (.instanceCreated "workflow" "1.0.0" Dict.empty none),
   sampleEvent 2 (.stepRetryScheduled "" 2 0),
   sampleEvent 3 (.costCharged (some "") 1 none 2 3)]

theorem costs_are_charges_chargedWithoutName :
    ∃ base inst, fold (chargedWithoutName.take 2) = .ok base ∧
      fold (chargedWithoutName.drop 2) none (some base) = .ok inst ∧
      instanceBill inst = (1, 2, 3) ∧ BilledBy chargedWithoutName inst := by
  refine ⟨_, _, rfl, rfl, by decide +kernel, ?_⟩
  exact (@costs_are_charges none none (some _) (chargedWithoutName.take 2)
    (chargedWithoutName.drop 2) _ rfl rfl).1

/-- The step with the empty identifier is stored, and the charge that names it is
not on its bill. -/
theorem empty_name_not_charged :
    ∃ inst state, fold chargedWithoutName = .ok inst ∧ inst.stepStates.get? "" = some state ∧
      stepBill state ≠
        chargesWhere (fun payload => namedStep payload = some "") chargedWithoutName := by
  refine ⟨_, _, rfl, rfl, ?_⟩
  decide +kernel

end AgentForge.Guarantees
