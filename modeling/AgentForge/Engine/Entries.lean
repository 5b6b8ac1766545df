import AgentForge.Engine.Discipline

/-!
# Entries of the driver

What an attempt has done enters the log in one place, the batch that ends its
wave.  Everything else that the driver appends is clerical: it moves steps and
the workflow, raises escalations, schedules retries and records what a rollback
has undone.
-/

namespace AgentForge.Engine

open Domain Events Library
open Program

/-- Events that record nothing of an attempt. -/
def clerical : Payload → Prop
  | .llmCallRecorded .. => False
  | .costCharged .. => False
  | .sideEffectIntentRecorded .. => False
  | .sideEffectExecuted .. => False
  | .stepCompleted .. => False
  | .stepFailed .. => False
  | _ => True

/-- The event parks the workflow until its next retry. -/
def sleeps : Payload → Bool
  | .instanceStatusChanged _ .retrying _ => true
  | _ => false

section Payloads

variable {payload : Payload}

theorem not_sleeps_of_leavesStatus (leaves : leavesStatus payload) : sleeps payload = false := by
  cases payload with
  | instanceStatusChanged => exact leaves.elim
  | _ => rfl

theorem clerical_of_announces (announcing : announces payload) : clerical payload := by
  cases payload with
  | escalationRaised | stepStatusChanged | stepStarted => trivial
  | _ => exact announcing.elim

end Payloads

/-- The key of the executed side effect that an event records. -/
def executedEntry : Payload → Option String
  | .sideEffectExecuted _ idempotencyKey _ _ => some idempotencyKey
  | _ => none

/-- Operations that append clerical events only. -/
def Op.clericalOnly : Op → Prop
  | .appendNew _ _ drafts _ _ _ => ∀ draft ∈ drafts, clerical draft.payload
  | _ => True

/-- Code that appends clerical events only. -/
abbrev Clerical {α : Type} (code : Code α) : Prop :=
  Yields Op.clericalOnly (fun _ => True) code

/-- Operations that append clerical events only and perform no actions. -/
def Op.atDesk : Op → Prop
  | .executeEffect .. => False
  | .compensateInstance .. => False
  | op => op.clericalOnly

/-- Code that appends clerical events only and performs no actions. -/
abbrev AtDesk {α : Type} (code : Code α) : Prop :=
  Yields Op.atDesk (fun _ => True) code

theorem Op.clericalOnly_of_atDesk {op : Op} (atDesk : op.atDesk) : op.clericalOnly := by
  cases op with
  | executeEffect | compensateInstance => trivial
  | _ => exact atDesk

theorem AtDesk.clerical {α : Type} {code : Code α} (atDesk : AtDesk code) : Clerical code :=
  Yields.mono atDesk (fun _ => Op.clericalOnly_of_atDesk) fun _ holds => holds

/-- Operations whose appends are clerical, set no alarm and move the workflow to
where it is not parked.  Actions are performed only while `acting`. -/
def Op.concludes (acting : Prop) : Op → Prop
  | .appendNew _ _ drafts _ _ nextWakeupAt => nextWakeupAt = none ∧
      (∀ draft ∈ drafts, clerical draft.payload ∧ sleeps draft.payload = false) ∧
        ∃ draft ∈ drafts, ¬ leavesStatus draft.payload
  | .executeEffect .. => acting
  | .compensateInstance .. => acting
  | _ => True

/-- Code whose appends move the workflow on. -/
abbrev Concludes {α : Type} (acting : Prop) (code : Code α) : Prop :=
  Yields (Op.concludes acting) (fun _ => True) code

theorem Concludes.atDesk {α : Type} {code : Code α} (concludes : Concludes False code) :
    AtDesk code := by
  refine Yields.mono concludes (fun op concludes => ?_) fun _ holds => holds
  cases op with
  | appendNew => exact fun draft member => (concludes.2.1 draft member).1
  | executeEffect | compensateInstance => exact concludes
  | _ => trivial

theorem Concludes.clerical {α : Type} {code : Code α} (concludes : Concludes True code) :
    Clerical code := by
  refine Yields.mono concludes (fun op concludes => ?_) fun _ holds => holds
  cases op with
  | appendNew => exact fun draft member => (concludes.2.1 draft member).1
  | _ => trivial

section Pieces

variable {config : Config} {definition : WorkflowDefinition} {inst : WorkflowInstance} {α : Type}
  {allowed : Op → Prop} {acting : Prop}

theorem Op.clericalOnly_of_attempts {ctx : StepContext} {op : Op} (attempts : op.attempts ctx) :
    op.clericalOnly := by
  cases op with
  | appendNew => exact attempts.elim
  | _ => trivial

theorem Op.concludes_of_attempts {ctx : StepContext} {op : Op} (attempts : op.attempts ctx) :
    op.concludes True := by
  cases op with
  | appendNew => exact attempts.elim
  | _ => trivial

/-- Drafting appends nothing. -/
theorem atDesk_drafting {returns : α → Prop} {code : Code α}
    (yields : Yields Op.drafts returns code) : Yields Op.atDesk returns code :=
  yields_drafting trivial trivial yields

private theorem concludes_drafting {returns : α → Prop} {code : Code α}
    (yields : Yields Op.drafts returns code) : Yields (Op.concludes acting) returns code :=
  yields_drafting trivial trivial yields

theorem atDesk_append {payloads : List Payload} {drafts : List Event}
    (drafted : DraftsOf inst payloads drafts) (all : ∀ payload ∈ payloads, clerical payload)
    (nextWakeupAt : Option Time) : AtDesk (append definition inst drafts nextWakeupAt) :=
  yields_append fun _ => drafted.forall_mem all

theorem atDesk_now : AtDesk Code.now :=
  yields_call trivial

theorem atDesk_transition (source target : WorkflowStatus) (reason : Option String)
    (nextWakeupAt : Option Time) :
    AtDesk (transition definition inst source target reason nextWakeupAt) := by
  refine Safe.bind (atDesk_drafting (yields_draftEvent inst _)) fun draft _ drafted => ?_
  refine atDesk_append drafted (fun payload member => ?_) nextWakeupAt
  rw [List.mem_singleton.mp member]
  trivial

/-- The recovery appends one clerical batch that leaves the status alone. -/
theorem yields_recoverInFlight (newId : allowed .newId) (now : allowed .now)
    (appends : ∀ drafts : List Event,
      (∀ draft ∈ drafts, clerical draft.payload ∧ leavesStatus draft.payload) →
        Yields allowed (fun _ => True) (append definition inst drafts)) :
    Yields allowed (fun _ => True) (recoverInFlight definition inst) := by
  unfold recoverInFlight
  dsimp only
  rw [← traverse_map (draftEvent inst) fun stepId =>
    Payload.stepStatusChanged stepId .running .ready (some "worker-recovered")]
  refine Safe.bind (yields_drafting newId now (yields_drafts inst _)) fun drafts _ drafted => ?_
  apply appends drafts
  intro draft member
  have listed := List.mem_map_of_mem (f := Event.payload) member
  rw [drafted.1] at listed
  obtain ⟨stepId, _, same⟩ := List.mem_map.mp listed
  rw [← same]
  exact ⟨trivial, trivial⟩

/-- So does the start of a wave. -/
theorem yields_startWave (workerId : String) (dispatch : List (String × Nat))
    (newId : allowed .newId) (now : allowed .now)
    (appends : ∀ drafts : List Event,
      (∀ draft ∈ drafts, clerical draft.payload ∧ leavesStatus draft.payload) →
        Yields allowed (fun _ => True) (append definition inst drafts)) :
    Yields allowed (fun _ => True) (do
      let started ← Program.traverse (startEvents inst workerId) dispatch
      append definition inst started.flatten) := by
  refine Safe.bind (yields_drafting newId now
    (yields_groups dispatch (yields_startEvents inst workerId))) ?_
  rintro started _ ⟨payloads, drafted, all⟩
  apply appends started.flatten
  have leaving (payload : Payload) (member : payload ∈ payloads) :
      clerical payload ∧ leavesStatus payload := by
    have announcing := announces_of_launches (all payload member)
    exact ⟨clerical_of_announces announcing, leavesStatus_of_announces announcing⟩
  exact drafted.forall_mem leaving

private theorem atDesk_leaving (drafts : List Event)
    (all : ∀ draft ∈ drafts, clerical draft.payload ∧ leavesStatus draft.payload) :
    AtDesk (append definition inst drafts) :=
  yields_append fun _ draft member => (all draft member).1

theorem atDesk_recoverInFlight : AtDesk (recoverInFlight definition inst) :=
  yields_recoverInFlight trivial trivial atDesk_leaving

theorem atDesk_startWave (workerId : String) (dispatch : List (String × Nat)) :
    AtDesk (do
      let started ← Program.traverse (startEvents inst workerId) dispatch
      append definition inst started.flatten) :=
  yields_startWave workerId dispatch trivial trivial atDesk_leaving

theorem atDesk_budgetView : AtDesk (budgetView config inst) :=
  yields_budgetView trivial fun _ => trivial

/-! ## Batches that move the workflow on -/

/-- A batch whose last event moves the workflow. -/
private theorem concludes_append {payloads : List Payload} {last : Payload} {drafts : List Event}
    (drafted : DraftsOf inst (payloads ++ [last]) drafts)
    (first : ∀ payload ∈ payloads, clerical payload ∧ sleeps payload = false)
    (moves : clerical last ∧ sleeps last = false ∧ ¬ leavesStatus last) :
    Concludes acting (append definition inst drafts) := by
  have every := forall_mem_concat first ⟨moves.1, moves.2.1⟩
  refine yields_append fun _ => ⟨rfl, drafted.forall_mem every, ?_⟩
  have listed : last ∈ drafts.map Event.payload := by simp [drafted.1]
  obtain ⟨draft, member, rfl⟩ := List.mem_map.mp listed
  exact ⟨draft, member, moves.2.2⟩

theorem concludes_transition {source target : WorkflowStatus} {reason : Option String}
    (awake : target ≠ .retrying) :
    Concludes acting (transition definition inst source target reason) := by
  refine Safe.bind (concludes_drafting (yields_draftEvent inst _)) fun draft _ drafted => ?_
  apply @concludes_append _ _ _ [] _ _ drafted
  · simp
  · cases target with
    | retrying => exact absurd rfl awake
    | _ => exact ⟨trivial, rfl, id⟩

/-- Draft two events and append them. -/
private theorem concludes_pair {first second : Payload} {value : α}
    (one : clerical first ∧ sleeps first = false)
    (other : clerical second ∧ sleeps second = false ∧ ¬ leavesStatus second) :
    Concludes acting (do
      let one ← draftEvent inst first
      let other ← draftEvent inst second
      let _ ← append definition inst [one, other]
      pure value) := by
  refine Safe.bind (concludes_drafting (yields_draftEvent inst _)) fun _ _ drafted => ?_
  refine Safe.bind (concludes_drafting (yields_draftEvent inst _)) fun _ _ more => ?_
  refine Safe.bind (concludes_append (drafted.append more) ?_ other) fun _ _ _ => trivial
  intro payload member
  rwa [List.mem_singleton.mp member]

theorem concludes_complete : Concludes acting (complete definition inst) :=
  concludes_pair ⟨trivial, rfl⟩ ⟨trivial, rfl, id⟩

theorem concludes_escalate (stepId reason recommendation parkReason : String) :
    Concludes acting (escalate definition inst stepId reason recommendation parkReason) :=
  Safe.bind (yields_call trivial) fun _ _ _ => concludes_pair ⟨trivial, rfl⟩ ⟨trivial, rfl, id⟩

theorem concludes_blockOnBudget (stepId : String) :
    Concludes acting (blockOnBudget definition inst stepId) :=
  concludes_pair ⟨trivial, rfl⟩ ⟨trivial, rfl, id⟩

/-- Escalations are raised and the workflow is parked until they are resolved. -/
private theorem concludes_raising {payloads : List Payload} {raised : List Event}
    {source : WorkflowStatus} {reason : Option String} (drafted : DraftsOf inst payloads raised)
    (all : ∀ payload ∈ payloads, announces payload) :
    Concludes acting (do
      let parked ← draftEvent inst (.instanceStatusChanged source .waitingApproval reason)
      append definition inst (raised ++ [parked])) := by
  refine Safe.bind (concludes_drafting (yields_draftEvent inst _)) fun parked _ more => ?_
  refine concludes_append (drafted.append more) (fun payload member => ?_) ⟨trivial, rfl, id⟩
  have announcing := all payload member
  exact ⟨clerical_of_announces announcing,
    not_sleeps_of_leavesStatus (leavesStatus_of_announces announcing)⟩

theorem concludes_escalateForApproval (stepIds : List String) :
    Concludes acting (escalateForApproval definition inst stepIds) := by
  refine Safe.bind (yields_call trivial) fun now _ _ => ?_
  refine Safe.bind (concludes_drafting (yields_groups stepIds
    (yields_approvalEvents definition inst now))) ?_
  rintro raised _ ⟨payloads, drafted, all⟩
  exact Safe.bind_bind (concludes_raising drafted all) fun _ _ _ => trivial

theorem concludes_raiseReviewEscalations (reviews : List (String × ReviewRequest)) :
    Concludes acting (raiseReviewEscalations definition inst reviews) := by
  refine Safe.bind (yields_call trivial) fun now _ _ => ?_
  refine Safe.bind (concludes_drafting (yields_reviewEvents inst now reviews)) ?_
  rintro raised _ ⟨payloads, drafted, all⟩
  exact concludes_raising drafted all

theorem concludes_undoSideEffects : Concludes True (undoSideEffects config inst) := by
  unfold undoSideEffects
  cases config.hasSideEffects with
  | false => trivial
  | true =>
    refine Safe.bind (yields_call trivial) ?_
    rintro (failure | undone) _ _
    · change Concludes True (ite _ _ _)
      split <;> trivial
    · trivial

theorem concludes_rolledBack (undone : List EffectOutcome) (steps : List WorkflowStep)
    (reason : String) (value : α) :
    Concludes acting (do
      let drafts ← Program.traverse (draftEvent inst) (rollbackPayloads undone steps reason)
      let _ ← append definition inst drafts
      pure value) := by
  refine Safe.bind (concludes_drafting (yields_drafts inst _)) fun drafts _ drafted => ?_
  refine Safe.bind (concludes_append drafted (fun payload member => ?_) ⟨trivial, rfl, id⟩)
    fun _ _ _ => trivial
  rcases List.mem_append.mp member with undoing | compensating
  · obtain ⟨_, _, rfl⟩ := List.mem_map.mp undoing
    exact ⟨trivial, rfl⟩
  · obtain ⟨_, _, rfl⟩ := List.mem_map.mp compensating
    exact ⟨trivial, rfl⟩

theorem concludes_compensateSteps (steps : List WorkflowStep) :
    Concludes True (compensateSteps config inst steps) := by
  have attempted (ctx : StepContext) (timeoutSeconds : Nat) :
      Concludes True (runAttempt config ctx timeoutSeconds) :=
    (yields_runAttempt timeoutSeconds fun _ _ => yields_of_forall (fun _ _ => trivial) _).mono
      (fun op allowed => @Op.concludes_of_attempts ctx op allowed.1) fun _ _ => trivial
  induction steps with
  | nil => trivial
  | cons step rest ih =>
    have ran : Concludes True (runStepCompensation config inst step) := by
      refine yields_lift_bind fun state _ => ?_
      refine Safe.bind (attempted _ _) ?_
      rintro (success | failure) _ _ <;> trivial
    refine Safe.bind ran.settle ?_
    rintro (failure | _) _ _
    · dsimp only
      split <;> trivial
    · exact ih

theorem concludes_rollback (reason : String) :
    Concludes True (rollback config definition inst reason) := by
  refine Safe.bind concludes_undoSideEffects ?_
  rintro (detail | undone) _ _
  · exact concludes_escalate _ _ _ _
  · refine yields_lift_bind fun steps _ => ?_
    refine Safe.bind (concludes_compensateSteps steps) ?_
    rintro (_ | detail) _ _
    · exact concludes_rolledBack undone steps reason _
    · exact concludes_escalate _ _ _ _

theorem concludes_applyFailurePolicy (failure : String × String) :
    Concludes True (applyFailurePolicy config definition inst failure) := by
  obtain ⟨stepId, reason⟩ := failure
  refine Safe.bind (yields_call trivial) fun _ _ _ => ?_
  split
  · exact concludes_escalate _ _ _ _
  · cases definition.onFailure with
    | escalate => exact concludes_escalate _ _ _ _
    | rollback => exact concludes_rollback reason
    | deadLetter =>
      refine Safe.bind (concludes_transition (by simp)) fun _ _ _ => ?_
      exact Safe.bind (yields_call trivial) fun _ _ _ => yields_lift_bind fun _ _ => trivial
    | pause => exact Safe.bind (concludes_transition (by simp)) fun _ _ _ => trivial

/-! ## Waves -/

/-- What follows the batch that ends the attempts of a wave. -/
def closeWave (config : Config) (definition : WorkflowDefinition) (inst : WorkflowInstance)
    (results : List AttemptResult) : Code WorkflowInstance := do
  recordWaveSpend config inst results
  let now ← Code.now
  let retries ← Program.traverse (draftEvent inst) (results.filterMap (retryPayload now))
  let inst ← append definition inst retries
  let reviews := reviewsOf results
  if reviews.isEmpty then pure inst
  else raiseReviewEscalations definition inst reviews

theorem settleWave_eq (config : Config) (definition : WorkflowDefinition)
    (inst : WorkflowInstance) (results : List AttemptResult) :
    settleWave config definition inst results =
      Program.traverse (draftEvent inst) (results.flatMap resultPayloads) >>= fun drafts =>
        append definition inst drafts >>= fun inst => closeWave config definition inst results :=
  rfl

private theorem clerical_of_retryPayload {now : Time} {result : AttemptResult}
    {payload : Payload} (earned : retryPayload now result = some payload) : clerical payload := by
  obtain ⟨_, _, _, rfl⟩ := exists_of_retryPayload earned
  trivial

theorem atDesk_closeWave (results : List AttemptResult) :
    AtDesk (closeWave config definition inst results) := by
  refine Safe.bind (yields_recordWaveSpend trivial fun _ _ => trivial) fun _ _ _ => ?_
  refine Safe.bind (yields_call trivial) fun now _ _ => ?_
  refine Safe.bind (atDesk_drafting (yields_drafts inst _)) fun retries _ drafted => ?_
  refine Safe.bind (atDesk_append drafted (fun payload member => ?_) none) fun inst _ _ => ?_
  · obtain ⟨result, _, earned⟩ := List.mem_filterMap.mp member
    exact clerical_of_retryPayload earned
  · dsimp only
    split
    · trivial
    · exact (concludes_raiseReviewEscalations _).atDesk

/-- However an attempt ends, its outcome hands over the charges and the side
effects of its context. -/
def HandsOver (outcome : StepOutcome) (ledger : ContextState) : Prop :=
  outcome.charges = ledger.charges ∧ outcome.effects = ledger.effects

theorem yields_outcomeOf (timeoutSeconds : Nat) (ended : Ended) (state : ContextState) :
    Yields Op.atDesk (fun outcome => HandsOver outcome state)
      (outcomeOf timeoutSeconds ended state) := by
  cases ended with
  | timedOut => exact ⟨rfl, rfl⟩
  | returned result => exact ⟨rfl, rfl⟩
  | raised failure =>
    unfold outcomeOf
    dsimp only
    cases failure.exnClass with
    | cancelled => trivial
    | _ => exact ⟨rfl, rfl⟩

/-! ## Plans -/

variable {lease : Lease} {plan : Plan}

/-- The plan dispatches a wave. -/
structure Plan.Dispatches (plan : Plan) : Prop extends plan.Clear where
  busy : plan.dispatch ≠ []

theorem followPlan_of_dispatches (dispatches : plan.Dispatches) :
    followPlan config definition lease inst plan =
      .again <$> dispatchWave config definition lease inst plan.dispatch := by
  simp [followPlan, dispatches.affordable, dispatches.approved, dispatches.fine, dispatches.busy]

/-- Every other plan leads to clerical entries and ends the drive. -/
theorem yields_followPlan (idle : ¬ plan.Dispatches) :
    Yields Op.clericalOnly (fun turn => ∃ report, turn = .report report)
      (followPlan config definition lease inst plan) := by
  have report {code : Code DriveReport} (isClerical : Clerical code) :
      Yields Op.clericalOnly (fun turn => ∃ report, turn = .report report)
        (Turn.report <$> code) :=
    Safe.map isClerical fun _ _ _ => ⟨_, rfl⟩
  have course := course_followPlan config definition lease inst plan
  generalize followPlan config definition lease inst plan = code at course ⊢
  cases course with
  | blocked stepId => exact report (concludes_blockOnBudget stepId).clerical
  | approvals => exact report (concludes_escalateForApproval _).clerical
  | failed failure => exact report (concludes_applyFailurePolicy failure).clerical
  | waved clear busy => exact absurd ⟨clear, busy⟩ idle
  | completed => exact report concludes_complete.clerical
  | parked => exact Safe.bind (atDesk_transition _ _ _ _).clerical fun _ _ _ => ⟨_, rfl⟩
  | idle => exact ⟨_, rfl⟩

theorem clerical_followPlan (idle : ¬ plan.Dispatches) :
    Clerical (followPlan config definition lease inst plan) :=
  Safe.imp (yields_followPlan idle) fun _ _ _ => trivial

theorem atDesk_runTurn (elsewhere : inst.status ≠ .running) :
    AtDesk (runTurn config definition lease inst) := by
  unfold runTurn
  cases status : inst.status with
  | running => exact absurd status elsewhere
  | pending | retrying => exact Safe.map (atDesk_transition _ _ _ _) fun _ _ _ => trivial
  | _ => trivial

end Pieces

end AgentForge.Engine
