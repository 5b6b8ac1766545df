import AgentForge.Engine.Footprint
import AgentForge.Refinement.Settling

/-!
# The driver

Every path through the driver keeps to the conduct: recovery, the waves, and
each of the ways in which a drive comes to an end.
-/

namespace AgentForge.Refinement

open Domain Events Library Engine Protocol

variable {setting : Setting} {care : Care} {world next : World} {inst : WorkflowInstance}
  {approvals : List Escalation} {plan : Plan} {stepId : String}

/-! ## Recovery -/

/-- The steps that the instance in memory has as running. -/
def staleSteps (inst : WorkflowInstance) : List String :=
  (inst.stepStates.entries.filter fun entry => entry.2.status = .running).map Prod.fst

private theorem nodup_staleSteps (inst : WorkflowInstance) : (staleSteps inst).Nodup :=
  inst.stepStates.nodup.sublist (List.filter_sublist.map Prod.fst)

theorem running_of_mem_staleSteps (holds : Holds setting world inst)
    (member : stepId ∈ staleSteps inst) : ((replay world.log).steps stepId).status = .running := by
  obtain ⟨⟨_, state⟩, entryMember, rfl⟩ := List.mem_map.mp member
  obtain ⟨stored, running⟩ := List.mem_filter.mp entryMember
  rw [holds.steps, WorkflowInstance.stepOr, Dict.get?_eq_some_iff.mpr stored]
  exact of_decide_eq_true running

private theorem plain_of_mem_recovered {stepIds : List String} {reason : Option String} :
    ∀ payload ∈ stepIds.map fun stepId => Payload.stepStatusChanged stepId .running .ready reason,
      quiet payload = true ∧ ends payload = false := by
  intro payload listed
  obtain ⟨stepId, _, rfl⟩ := List.mem_map.mp listed
  exact ⟨rfl, rfl⟩

theorem keeps_recoverInFlight (atHead : AtHead setting care world inst) :
    Keeps setting care (fun result next => AtHead setting care next result)
      (recoverInFlight setting.definition inst) world := by
  have running : ∀ stepId ∈ staleSteps inst, stepId ∈ setting.definition.stepIds ∧
      ((replay world.log).steps stepId).status = .running := fun stepId member => by
    have found := running_of_mem_staleSteps atHead.holds member
    exact ⟨atHead.consistent.run.invariant.known stepId (by rw [found]; simp), found⟩
  have written := atHead.keeps_write ((staleSteps inst).map fun stepId =>
    .stepStatusChanged stepId .running .ready (some "worker-recovered")) ?_
    (fun payload listed => (plain_of_mem_recovered payload listed).2) none
  · rw [Program.traverse_map] at written
    exact written.imp fun _ _ kept => kept.1
  · intro middle batch idle drafted
    rw [← idle.log] at running
    obtain ⟨legal, untouched⟩ := legal_recovered (nodup_staleSteps inst) running drafted
    exact sound_of_quiet (atHead.consistent.idle idle) legal drafted
      (fun payload listed => (plain_of_mem_recovered payload listed).1)
      fun accepted _ => (untouched accepted).status

/-! ## Moves of the workflow -/

theorem keeps_transition {source target : WorkflowStatus}
    (atHead : AtHead setting care world inst) (found : inst.status = source)
    (allowed : workflowTransitionAllowed source target = true)
    (unparked : parks source = false) (unfinished : target ≠ .completed)
    (reason : Option String) (wakeup : Option Time) : Keeps setting care
      (fun result next => AtHead setting care next result ∧ world.log <+: next.log)
      (transition setting.definition inst source target reason wakeup) world := by
  refine atHead.keeps_write [.instanceStatusChanged source target reason] ?_ (by simp [ends]) wakeup
  intro middle batch idle drafted
  obtain ⟨event, rest, rfl, payload, _, restDrafted⟩ := drafted.eq_cons
  obtain rfl := restDrafted.eq_nil
  have status : (replay middle.log).status = source := by
    rw [idle.log, atHead.holds.status, found]
  apply sound_of_quiet (atHead.consistent.idle idle) _ drafted
    (by simp [quiet, compensates, raises])
  · intro _ parked
    rw [status, unparked] at parked
    cases parked
  · refine ⟨?_, fun _ => trivial⟩
    rw [payload]
    exact .moved_from status allowed unfinished

/-- The driver reports at the head of the loop. -/
def Reported (setting : Setting) (care : Care) (_ : DriveReport) (world : World) : Prop :=
  ∃ inst, AtHead setting care world inst

theorem keeps_blockOnBudget (atHead : AtHead setting care world inst)
    (runs : inst.status = .running) (stepId : String) :
    Keeps setting care (Reported setting care) (blockOnBudget setting.definition inst stepId)
      world := by
  refine (atHead.keeps_write
    [.budgetExceeded stepId 0 (inst.remainingBudgetUsd.getD 0) .workflow,
      .instanceStatusChanged .running .paused (some "budget exhausted")] ?_
    (by simp [ends]) none).bind ?_
  · intro middle batch idle drafted
    obtain ⟨exceeded, rest, rfl, exceededPayload, _, restDrafted⟩ := drafted.eq_cons
    obtain ⟨paused, rest, rfl, pausedPayload, _, restDrafted⟩ := restDrafted.eq_cons
    obtain rfl := restDrafted.eq_nil
    have status : (replay middle.log).status = .running := by
      rw [idle.log, atHead.holds.status, runs]
    apply sound_of_running (atHead.consistent.idle idle) status _ drafted
      (by simp [quiet, compensates, raises])
    refine ⟨?_, fun _ => ⟨?_, fun _ => trivial⟩⟩
    · rw [exceededPayload]
      exact .budgetExceeded
    · rw [pausedPayload]
      refine .moved_from ?_ rfl (by simp)
      unfold State.after
      rw [exceededPayload]
      exact status
  · exact fun result _ kept => ⟨result, kept.1⟩

/-! ## Completion -/

private theorem completedOutputs_keys (inst : WorkflowInstance) :
    ((inst.stepStates.entries.filterMap fun entry => if entry.2.status = .completed then
        entry.2.output.map fun output => (entry.1, JsonDict.toJson output) else
        none).map Prod.fst).Nodup := by
  refine inst.stepStates.nodup.sublist ?_
  generalize inst.stepStates.entries = entries
  induction entries with
  | nil => exact List.Sublist.refl _
  | cons entry rest ih =>
    rw [List.filterMap_cons]
    by_cases completed : entry.2.status = .completed
    · rw [if_pos completed]
      cases entry.2.output with
      | none => exact ih.cons _
      | some output => exact ih.cons_cons _
    · rw [if_neg completed]
      exact ih.cons _

/-- The outputs that the driver collects are those of the completed steps. -/
private theorem outputsOf_completedOutputs (holds : Holds setting world inst) :
    (replay world.log).OutputsOf (completedOutputs inst) := by
  intro stepId value
  rw [completedOutputs, Dict.get?_ofList_eq_some_iff (completedOutputs_keys inst),
    List.mem_filterMap, holds.steps, WorkflowInstance.stepOr]
  constructor
  · rintro ⟨⟨key, state⟩, member, found⟩
    by_cases completed : state.status = .completed
    · rw [if_pos completed] at found
      obtain ⟨output, outputOk, same⟩ := Option.map_eq_some_iff.mp found
      cases same
      rw [Dict.get?_eq_some_iff.mpr member]
      exact ⟨output, completed, outputOk, rfl⟩
    · rw [if_neg completed] at found
      cases found
  · rintro ⟨output, completed, outputOk, rfl⟩
    cases stored : inst.stepStates.get? stepId with
    | none =>
      rw [stored] at completed
      cases completed
    | some state =>
      rw [stored] at completed outputOk
      refine ⟨(stepId, state), Dict.get?_eq_some_iff.mp stored, ?_⟩
      change state.status = .completed at completed
      change state.output = some output at outputOk
      simp [completed, outputOk]

/-- In a running workflow settled steps are done. -/
private theorem done_of_isSettled (atHead : AtHead setting care world inst)
    (runs : inst.status = .running) (settled : isSettled (inst.stepOr stepId).status = true) :
    (replay world.log).Done stepId := by
  have steps := atHead.holds.steps stepId
  unfold State.Done
  have compensated := atHead.consistent.rest.compensated stepId
  rw [atHead.holds.status, runs] at compensated
  rw [steps] at compensated ⊢
  change (inst.stepOr stepId).status = _ → _ at compensated
  change (inst.stepOr stepId).status = _ ∨ (inst.stepOr stepId).status = _
  cases status : (inst.stepOr stepId).status <;> simp [status, isSettled] at settled compensated ⊢

theorem keeps_complete (atHead : AtHead setting care world inst) (runs : inst.status = .running)
    (settled : ∀ step ∈ setting.definition.steps,
      isSettled (inst.stepOr step.stepId).status = true) :
    Keeps setting care (Reported setting care) (complete setting.definition inst) world := by
  refine (atHead.keeps_write [.instanceStatusChanged .running .completed none,
    .instanceCompleted (completedOutputs inst)] ?_ (by simp [ends]) none).bind ?_
  · intro middle batch idle drafted
    obtain ⟨finished, rest, rfl, finishedPayload, _, restDrafted⟩ := drafted.eq_cons
    obtain ⟨completed, rest, rfl, completedPayload, _, restDrafted⟩ := restDrafted.eq_cons
    obtain rfl := restDrafted.eq_nil
    have middleHead := atHead.idle idle
    have status : (replay middle.log).status = .running := by
      rw [middleHead.holds.status, runs]
    have done : ∀ stepId ∈ setting.definition.stepIds, (replay middle.log).Done stepId := by
      intro stepId listed
      obtain ⟨step, member, rfl⟩ := List.mem_map.mp listed
      exact done_of_isSettled middleHead runs (settled step member)
    apply sound_of_running middleHead.consistent status _ drafted
      (by simp [quiet, compensates, raises])
    refine ⟨?_, fun _ => ⟨?_, fun _ => trivial⟩⟩
    · rw [finishedPayload]
      exact .finished status done
    · have after : (replay middle.log).after finished = { replay middle.log with
          status := .completed, log := (replay middle.log).log ++ [finished] } := by
        unfold State.after
        rw [finishedPayload]
        rfl
      rw [completedPayload, after]
      exact .outputsRecorded rfl done (outputsOf_completedOutputs middleHead.holds)
  · exact fun result _ kept => ⟨result, kept.1⟩

/-! ## Escalations of the failure policy -/

/-- Raising one escalation and parking. -/
theorem keeps_escalate {stepId reason recommendation parkReason : String}
    (atHead : AtHead setting care world inst) (runs : inst.status = .running)
    (legal : ∀ escalation : Escalation, escalation.stepId = stepId →
      (replay world.log).Fresh escalation.escalationId → ∀ time,
        Legal (rulesOf setting) (replay world.log) time (.escalationRaised escalation)) :
    Keeps setting care (Reported setting care)
      (escalate setting.definition inst stepId reason recommendation parkReason) world := by
  refine (keeps_newId atHead.consistent).bind ?_
  rintro id drawn ⟨drawnIdle, fresh, issued⟩
  have drawnHead := atHead.idle drawnIdle
  refine (drawnHead.keeps_write [.escalationRaised
      { escalationId := id, stepId := stepId, reason := reason,
        recommendation := recommendation, autoAction := "abort" },
    .instanceStatusChanged .running .waitingApproval (some parkReason)] ?_
    (by simp [ends]) none).bind ?_
  · intro middle batch idle drafted
    obtain ⟨raised, rest, rfl, raisedPayload, _, restDrafted⟩ := drafted.eq_cons
    obtain ⟨parked, rest, rfl, parkedPayload, _, restDrafted⟩ := restDrafted.eq_cons
    obtain rfl := restDrafted.eq_nil
    have log : middle.log = world.log := (drawnIdle.trans idle).log
    have sound : Sound setting middle ([raised] ++ [parked]) := by
      apply sound_of_parking (drawnHead.consistent.idle idle) _ _ parkedPayload
      · simp [raisedPayload, compensates]
      · intro event member escalation payload
        rw [List.mem_singleton] at member
        rw [member, raisedPayload] at payload
        cases payload
        exact idle.issued_subset _ issued
      · refine ⟨?_, fun _ => trivial⟩
        rw [raisedPayload, log]
        exact legal _ rfl (atHead.consistent.fresh fresh) _
      · intro _
        change (State.advance _ raised.payload).status = _
        rw [raisedPayload, log]
        exact (State.status_raiseEscalation _ _).trans (atHead.holds.status.trans runs)
    exact sound
  · exact fun result _ kept => ⟨result, kept.1⟩

section FailurePolicy

variable {config : Config} {stepId : String} {undone : List EffectOutcome}
  {steps : List WorkflowStep} {reason : String}

/-- The step has failed and no retry is scheduled, as the log has it. -/
private theorem failedForGood (holds : Holds setting world inst)
    (failed : FailedForGood inst stepId) : ((replay world.log).steps stepId).status = .failed ∧
      ((replay world.log).steps stepId).nextRetryAt = none := by
  rw [holds.steps]
  exact failed

private theorem keeps_escalateStep {reason recommendation parkReason : String}
    (atHead : AtHead setting care world inst) (runs : inst.status = .running)
    (known : stepId ∈ setting.definition.stepIds) (failed : FailedForGood inst stepId) :
    Keeps setting care (Reported setting care)
      (escalate setting.definition inst stepId reason recommendation parkReason) world := by
  obtain ⟨status, unscheduled⟩ := failedForGood atHead.holds failed
  apply keeps_escalate atHead runs
  rintro escalation rfl fresh time
  refine .policyRaised known status unscheduled ?_ fresh (atHead.holds.status.trans runs)
  apply atHead.consistent.run.invariant.not_open_or_loose
  · exact setting.definition.stepId_ne_empty known
  · rw [status]
    simp

private theorem keeps_escalateCompensationFailure (atHead : AtHead setting care world inst)
    (runs : inst.status = .running) (detail : String) : Keeps setting care (Reported setting care)
      (escalateCompensationFailure setting.definition inst detail) world := by
  apply keeps_escalate atHead runs
  intro escalation workflowLevel fresh time
  exact .compensationRaised workflowLevel fresh (atHead.holds.status.trans runs)

/-! ## Roll-back -/

theorem keeps_undoSideEffects (consistent : Consistent setting world) :
    Keeps setting care (fun _ next => next = world) (undoSideEffects config inst) world := by
  unfold undoSideEffects
  cases config.hasSideEffects with
  | false => rfl
  | true =>
    refine ⟨⟨consistent, trivial⟩, ?_⟩
    intro response next answered
    obtain rfl : next = world := answered
    cases response with
    | ok undone => rfl
    | error failure =>
      change Keeps setting care _ (if failure.exnClass = .compensation then
        pure (Except.error failure.message) else .raise failure) next
      split
      · rfl
      · exact consistent

private theorem keeps_runStepCompensation (consistent : Consistent setting world)
    (step : WorkflowStep) : KeepsOr setting care (fun _ next => Idle setting world next)
      (fun _ next => Idle setting world next) (runStepCompensation config inst step) world := by
  refine keeps_lift_bind (fun _ => .refl setting world) ?_
  intro state _
  refine (keeps_runAttempt consistent step.timeoutSeconds ?_ ?_).bind ?_
  · intro wired
    cases wired
  · exact fun _ _ worked => worked.idle rfl
  · rintro outcome next ⟨worked, _⟩
    cases outcome with
    | success success => exact worked.idle rfl
    | failure failure => exact worked.idle rfl

theorem keeps_compensateSteps (consistent : Consistent setting world) (steps : List WorkflowStep) :
    Keeps setting care (fun _ next => Idle setting world next)
      (compensateSteps config inst steps) world := by
  induction steps generalizing world with
  | nil => exact .refl setting world
  | cons step rest ih =>
    refine (keeps_runStepCompensation consistent step).settle.bind ?_
    intro outcome middle ended
    cases outcome with
    | ok value =>
      have idle : Idle setting world middle := ended
      exact (ih (consistent.idle idle)).imp fun _ _ idle' => idle.trans idle'
    | error failure =>
      have idle : Idle setting world middle := ended
      dsimp only
      split
      · exact idle
      · exact consistent.idle idle

theorem stepsToCompensate_eq_ok {steps result : List WorkflowStep}
    (found : stepsToCompensate inst steps = .ok result) :
    result.Sublist steps ∧ ∀ step ∈ result, (inst.stepOr step.stepId).status = .completed := by
  induction steps generalizing result with
  | nil =>
    cases found
    exact ⟨List.Sublist.refl _, by simp⟩
  | cons step rest ih =>
    unfold stepsToCompensate at found
    split at found
    · obtain ⟨state, stateOk, continued⟩ := bind_eq_ok.mp found
      obtain ⟨others, othersOk, continued⟩ := bind_eq_ok.mp continued
      obtain ⟨sublist, completed⟩ := ih othersOk
      by_cases isCompleted : state.status = .completed
      · rw [if_pos isCompleted] at continued
        cases continued
        refine ⟨sublist.cons_cons _, ?_⟩
        intro other member
        rcases List.mem_cons.mp member with rfl | member
        · rw [stepState_eq_ok stateOk]
          exact isCompleted
        · exact completed other member
      · rw [if_neg isCompleted] at continued
        cases continued
        exact ⟨sublist.cons _, completed⟩
    · obtain ⟨sublist, completed⟩ := ih found
      exact ⟨sublist.cons _, completed⟩

private theorem plain_of_mem_rollback : ∀ payload ∈ rollbackPayloads undone steps reason,
      ends payload = false ∧ raises payload = false := by
  intro payload listed
  simp only [rollbackPayloads, List.mem_append, List.mem_map, List.mem_singleton] at listed
  rcases listed with (⟨effect, _, rfl⟩ | ⟨step, _, rfl⟩) | rfl <;> exact ⟨rfl, rfl⟩

/-- A batch that rolls the workflow back. -/
private theorem sound_rollback {time : Time} {batch : List Event}
    (runs : (replay world.log).status = .running) (nodup : (steps.map WorkflowStep.stepId).Nodup)
    (completed : ∀ step ∈ steps, step.stepId ∈ setting.definition.stepIds ∧
      ((replay world.log).steps step.stepId).status = .completed)
    (drafted : Drafted (rulesOf setting) time (rollbackPayloads undone steps reason) batch) :
    Sound setting world batch := by
  have noRaise := drafted.forall_mem fun payload listed => (plain_of_mem_rollback payload listed).2
  obtain ⟨undo, final, rfl, undoDrafted, finalDrafted⟩ := drafted.eq_append
  obtain ⟨moved, rest, rfl, movedPayload, _, restDrafted⟩ := finalDrafted.eq_cons
  obtain rfl := restDrafted.eq_nil
  obtain ⟨undoLegal, undoRuns⟩ := legal_compensations
    (fun outcome : EffectOutcome => (outcome.stepId, outcome.idempotencyKey, outcome.result))
    runs nodup completed undoDrafted
  constructor
  case legal =>
    refine legalBatch_append.mpr ⟨undoLegal, fun accepted => ⟨?_, fun _ => trivial⟩⟩
    rw [movedPayload]
    exact .moved_from (undoRuns accepted) rfl (by simp)
  case rest =>
    intro _
    apply AtRest.rolledBack
    rw [replay_append, State.afterAll_append]
    change (State.advance _ moved.payload).status = _
    rw [movedPayload]
    rfl
  case issued =>
    intro event member escalation payload
    have none := noRaise event member
    rw [payload] at none
    cases none

private theorem keeps_rollback (atHead : AtHead setting care world inst)
    (runs : inst.status = .running) (reason : String) :
    Keeps setting care (Reported setting care) (rollback config setting.definition inst reason)
      world := by
  refine (keeps_undoSideEffects atHead.consistent).bind ?_
  rintro undone same rfl
  cases undone with
  | error detail => exact keeps_escalateCompensationFailure atHead runs detail
  | ok undone =>
    refine keeps_lift_bind (fun _ => atHead.consistent) ?_
    intro steps stepsOk
    obtain ⟨sublist, completed⟩ := stepsToCompensate_eq_ok stepsOk
    refine (keeps_compensateSteps atHead.consistent steps).bind ?_
    intro failure compensated idle
    have head := atHead.idle idle
    cases failure with
    | some detail => exact keeps_escalateCompensationFailure head runs detail
    | none =>
      refine (head.keeps_write (rollbackPayloads undone steps reason) ?_
        (fun payload listed => (plain_of_mem_rollback payload listed).1) none).bind_bind ?_
      · intro middle batch idle' drafted
        have middleHead := head.idle idle'
        refine sound_rollback (middleHead.holds.status.trans runs) ?_ ?_
          drafted
        · refine List.Nodup.sublist (sublist.map _) ?_
          rw [List.map_reverse]
          exact List.nodup_reverse.mpr setting.definition.nodup_stepIds
        · intro step member
          refine ⟨List.mem_map_of_mem (List.mem_reverse.mp (sublist.subset member)), ?_⟩
          rw [middleHead.holds.steps]
          exact completed step member
      · exact fun result _ kept => ⟨result, kept.1⟩

/-! ## The failure policy -/

private theorem keeps_deadLetter (atHead : AtHead setting care world inst)
    (runs : inst.status = .running) (known : stepId ∈ setting.definition.stepIds)
    (failed : FailedForGood inst stepId) (reason : String) :
    Keeps setting care (Reported setting care)
      (do
        let inst ← transition setting.definition inst .running .deadLettered (some reason)
        lift (← Code.recordDeadLetter (deadLetterOf inst stepId reason))
        pure { instanceId := inst.instanceId, result := .deadLettered })
      world := by
  have started := atHead.consistent.run.invariant.startedStatus stepId
    (.inr (.inl (failedForGood atHead.holds failed).1))
  refine (keeps_transition atHead runs rfl rfl (by simp) (some reason) none).bind ?_
  rintro result next ⟨nextHead, more, grown⟩
  have startedNext : (replay next.log).Started stepId := by
    rw [← grown]
    exact started.append more
  refine ⟨⟨nextHead.consistent, stepId, rfl, known, startedNext⟩, ?_⟩
  rintro _ final (⟨failure, rfl, rfl⟩ | ⟨rfl, rfl⟩)
  · exact nextHead.consistent
  · refine ⟨result, nextHead.holds, { nextHead.consistent with deadLetters := ?_ },
      ⟨nextHead.tidy.retries, nextHead.tidy.reviews, nextHead.tidy.calls⟩⟩
    exact forall_mem_concat nextHead.consistent.deadLetters ⟨stepId, rfl, known, startedNext⟩

theorem keeps_applyFailurePolicy (atHead : AtHead setting care world inst)
    (runs : inst.status = .running) {failure : String × String}
    (known : failure.1 ∈ setting.definition.stepIds) (failed : FailedForGood inst failure.1) :
    Keeps setting care (Reported setting care)
      (applyFailurePolicy config setting.definition inst failure) world := by
  obtain ⟨stepId, reason⟩ := failure
  refine ⟨⟨atHead.consistent, atHead.tidy, failedForGood atHead.holds failed⟩, ?_⟩
  rintro _ marked rfl
  have head : AtHead setting care (world.note (.policyApplied stepId)) inst :=
    ⟨atHead.holds, { atHead.consistent with },
      ⟨atHead.tidy.retries, atHead.tidy.reviews, atHead.tidy.calls⟩⟩
  by_cases exceeded : ((inst.stepStates.get? stepId).any fun state =>
      state.errorType = some "BudgetExceededError") = true
  · change Keeps setting care _ (if _ then _ else _) _
    rw [if_pos exceeded]
    exact keeps_escalateStep head runs known failed
  · change Keeps setting care _ (if _ then _ else _) _
    rw [if_neg exceeded]
    cases setting.definition.onFailure with
    | escalate => exact keeps_escalateStep head runs known failed
    | rollback => exact keeps_rollback head runs reason
    | deadLetter => exact keeps_deadLetter head runs known failed reason
    | pause =>
      refine (keeps_transition head runs rfl rfl (by simp) (some reason) none).bind ?_
      exact fun result _ kept => ⟨result, kept.1⟩

end FailurePolicy

/-! ## Approvals -/

/-- The escalation that an approval is raised as. -/
def approvalEscalation (now : Time) (step : WorkflowStep) (stepId escalationId : String) :
    Escalation where
  escalationId := escalationId
  stepId := stepId
  reason := "explicit_approval"
  deadline := deadlineAfter now (step.approvalTimeoutSeconds.map Int.ofNat)
  autoAction := step.approvalAutoAction.value

/-- What asking for an approval adds to the log. -/
def approvalPayloads (state : State) (approval : Escalation) : List Payload :=
  readyPayloads state approval.stepId ++ [.escalationRaised approval]

private theorem keeps_approvalEvents (consistent : Consistent setting world)
    (holds : Holds setting world inst) (now : Time) (stepId : String) : Keeps setting care
      (fun events next => Idle setting world next ∧ ∃ approval : Escalation,
        approval.stepId = stepId ∧ approval.escalationId ∉ world.issued ∧
        approval.escalationId ∈ next.issued ∧
        Drafted (rulesOf setting) world.clock (approvalPayloads (replay world.log) approval) events)
      (approvalEvents setting.definition inst now stepId) world := by
  refine keeps_lift_bind (fun _ => consistent) ?_
  intro step _
  refine (keeps_readyEvents consistent holds stepId).bind ?_
  rintro readied middle ⟨idle, readiedDrafted⟩
  refine (keeps_raise (consistent.idle idle) inst (approvalEscalation now step stepId)).bind_bind ?_
  rintro raised final ⟨id, idle', raisedDrafted, fresh, issued⟩
  refine ⟨idle.trans idle', approvalEscalation now step stepId id, rfl, ?_, issued, ?_⟩
  · exact fun known => fresh (idle.issued_subset _ known)
  · exact readiedDrafted.append (raisedDrafted.of_le idle.clock_le)

private theorem keeps_approvals (consistent : Consistent setting world)
    (holds : Holds setting world inst) (now : Time) (stepIds : List String) : Keeps setting care
      (fun groups next => Idle setting world next ∧ ∃ approvals : List Escalation,
        approvals.map Escalation.stepId = stepIds ∧ Drawn world next approvals ∧
        Drafted (rulesOf setting) world.clock
          (approvals.flatMap (approvalPayloads (replay world.log))) groups.flatten)
      (Program.traverse (approvalEvents setting.definition inst now) stepIds) world := by
  apply Program.safe_traverse fun done groups next => Idle setting world next ∧
    ∃ approvals : List Escalation, approvals.map Escalation.stepId = done ∧
      Drawn world next approvals ∧ Drafted (rulesOf setting) world.clock
        (approvals.flatMap (approvalPayloads (replay world.log))) (List.flatten groups)
  · exact ⟨.refl setting world, [], rfl, .nil world world, .nil⟩
  · rintro before stepId after _ groups middle ⟨idle, approvals, steps, drawn, drafted⟩
    refine (keeps_approvalEvents (consistent.idle idle) (holds.idle idle) now stepId).imp ?_
    rintro events final ⟨idle', approval, sameStep, fresh, issued, drafted'⟩
    rw [idle.log] at drafted'
    refine ⟨idle.trans idle', approvals ++ [approval], ?_, drawn.concat idle idle' fresh issued, ?_⟩
    · rw [List.map_append, steps, List.map_singleton, sameStep]
    · rw [List.flatMap_append, List.flatten_append, List.flatMap_singleton, List.flatten_singleton]
      exact drafted.append (drafted'.of_le idle.clock_le)

private theorem plain_of_mem_approvals {state : State} :
    ∀ payload ∈ approvals.flatMap (approvalPayloads state),
      compensates payload = false ∧ ends payload = false ∧
        ∀ escalation, payload = .escalationRaised escalation → escalation ∈ approvals := by
  intro payload listed
  obtain ⟨approval, member, mine⟩ := List.mem_flatMap.mp listed
  rcases List.mem_append.mp mine with readied | raised
  · unfold readyPayloads at readied
    split at readied
    · rw [List.mem_singleton] at readied
      subst readied
      exact ⟨rfl, rfl, fun _ other => by cases other⟩
    · cases readied
  · rw [List.mem_singleton] at raised
    subst raised
    refine ⟨rfl, rfl, ?_⟩
    rintro escalation same
    cases same
    exact member

/-- Every approval that a plan asks for may be raised. -/
private theorem approvable_of_soundPlan {now : Time} (holds : Holds setting world inst)
    (sound : SoundPlan inst setting.definition now plan)
    (steps : approvals.map Escalation.stepId = plan.approvalNeeded)
    (fresh : ∀ approval ∈ approvals, (replay world.log).Fresh approval.escalationId) :
    ∀ approval ∈ approvals, (∃ step ∈ setting.definition.steps, approval.stepId = step.stepId ∧
        step.requiresApproval = true) ∧
      (((replay world.log).steps approval.stepId).status = .pending ∨
        ((replay world.log).steps approval.stepId).status = .ready ∨
        ((replay world.log).steps approval.stepId).status = .failed) ∧
      ¬ (replay world.log).Open approval.stepId ∧ ¬ (replay world.log).Granted approval.stepId ∧
      (replay world.log).Fresh approval.escalationId := by
  intro approval member
  have listed : approval.stepId ∈ plan.approvalNeeded := steps ▸ List.mem_map_of_mem member
  obtain ⟨⟨step, stepMember, same, gated, closed, ungranted⟩, attempt, other, otherSame,
    candidate⟩ := sound.approvals _ listed
  refine ⟨⟨step, stepMember, same.symm, gated⟩, ?_, ?_, ?_, fresh approval member⟩
  · rw [holds.steps, show approval.stepId = other.stepId from otherSame.symm]
    change (inst.stepOr other.stepId).status = _ ∨ (inst.stepOr other.stepId).status = _ ∨
      (inst.stepOr other.stepId).status = _
    rcases candidate.runnable with ⟨pending | ready, _⟩ | ⟨failed, _⟩
    · exact .inl pending
    · exact .inr (.inl ready)
    · exact .inr (.inr failed)
  · rwa [holds.open_iff]
  · rw [holds.granted_iff, ungranted]
    simp

theorem keeps_escalateForApproval {now : Time} (atHead : AtHead setting care world inst)
    (runs : inst.status = .running) (sound : SoundPlan inst setting.definition now plan) :
    Keeps setting care (Reported setting care)
      (escalateForApproval setting.definition inst plan.approvalNeeded) world := by
  refine (keeps_now atHead.consistent).bind ?_
  rintro time timed ⟨timedIdle, _, _⟩
  have timedHead := atHead.idle timedIdle
  refine (keeps_approvals timedHead.consistent timedHead.holds time plan.approvalNeeded).bind ?_
  rintro groups drawnWorld ⟨drawnIdle, approvals, steps, drawn, groupsDrafted⟩
  have drawnHead := timedHead.idle drawnIdle
  refine (keeps_draftEvent drawnHead.consistent inst _).bind ?_
  rintro parked middle ⟨parkIdle, parkDrafted⟩
  have idle := drawnIdle.trans parkIdle
  have middleHead := timedHead.idle idle
  have numbered := (groupsDrafted.append (parkDrafted.of_le drawnIdle.clock_le)).resequence
    middle.log.length
  obtain ⟨batch, parkEvents, batchOk, batchDrafted, parkEventsDrafted⟩ := numbered.eq_append
  obtain ⟨park, rest, rfl, parks, _, restDrafted⟩ := parkEventsDrafted.eq_cons
  obtain rfl := restDrafted.eq_nil
  have plain := batchDrafted.forall_mem plain_of_mem_approvals
  have legal : LegalBatch (rulesOf setting) (replay middle.log) batch ∧
      ((replay middle.log).AcceptsAll batch →
        Raised (replay middle.log) approvals ((replay middle.log).afterAll batch)) := by
    rw [← idle.log] at batchDrafted
    refine legal_approvals (middleHead.holds.status.trans runs) (steps ▸ sound.approvalsDistinct)
      drawn.nodup ?_ batchDrafted
    refine approvable_of_soundPlan middleHead.holds sound steps fun approval member => ?_
    rw [idle.log]
    exact drawn.isFresh timedHead.consistent member
  have noEndings : NoEndings (batch ++ [park]) :=
    NoEndings.park (fun event member => (plain event member).2.1) parks
  rw [← batchOk] at noEndings
  refine (middleHead.keeps_append ?_ noEndings none).bind fun result _ kept => ⟨result, kept.1⟩
  rw [batchOk]
  apply sound_of_parking middleHead.consistent legal.1 _ parks
  · exact fun event member => (plain event member).1
  · intro event member escalation payload
    exact parkIdle.issued_subset _ (drawn.issued escalation ((plain event member).2.2 _ payload))
  · exact fun accepted => (legal.2 accepted).status.trans (middleHead.holds.status.trans runs)

/-! ## The loop -/

section Loop

variable {config : Config} {lease : Lease}
  (careful : care.reviews → ¬ (rulesOf setting).requeues)
  (metered : care.charges → Metered config)

/-- A turn ends with a report or at the head of the loop. -/
def TurnEnded (setting : Setting) (care : Care) : Turn → World → Prop
  | .report report, world => Reported setting care report world
  | .again inst, world => AtHead setting care world inst

include careful metered

private theorem keeps_followPlan {plan : Plan} {now : Time}
    (atHead : AtHead setting care world inst) (runs : inst.status = .running)
    (sound : SoundPlan inst setting.definition now plan)
    (current : setting.monotoneClock → now ≤ world.clock) :
    Keeps setting care (TurnEnded setting care)
      (followPlan config setting.definition lease inst plan) world := by
  have course := course_followPlan config setting.definition lease inst plan
  generalize followPlan config setting.definition lease inst plan = code at course ⊢
  cases course with
  | blocked stepId => exact (keeps_blockOnBudget atHead runs stepId).map fun _ _ ended => ended
  | approvals => exact (keeps_escalateForApproval atHead runs sound).map fun _ _ ended => ended
  | failed failed _ _ failure =>
    obtain ⟨known, forGood⟩ := sound.failure failed failure
    exact (keeps_applyFailurePolicy atHead runs known forGood).map fun _ _ ended => ended
  | waved _ busy =>
    exact (keeps_dispatchWave careful metered atHead runs sound current busy).map
      fun _ _ ended => ended
  | completed _ _ settled =>
    exact (keeps_complete atHead runs (sound.settled settled)).map fun _ _ ended => ended
  | parked wakeup =>
    refine (keeps_transition atHead runs rfl rfl (by simp) none (some wakeup)).bind ?_
    exact fun result _ kept => ⟨result, kept.1⟩
  | idle => exact ⟨inst, atHead⟩

theorem keeps_runTurn (atHead : AtHead setting care world inst) :
    Keeps setting care (TurnEnded setting care)
      (runTurn config setting.definition lease inst) world := by
  have ended : Reported setting care ⟨inst.instanceId, .idle, none⟩ world := ⟨inst, atHead⟩
  unfold runTurn
  cases status : inst.status with
  | pending =>
    exact (keeps_transition atHead status rfl rfl (by simp) none none).map
      fun _ _ kept => kept.1
  | retrying =>
    exact (keeps_transition atHead status rfl rfl (by simp) none none).map
      fun _ _ kept => kept.1
  | running =>
    refine (keeps_now atHead.consistent).bind ?_
    rintro now timed ⟨idle, same, _⟩
    refine keeps_lift_bind (fun _ => atHead.consistent.idle idle) ?_
    intro plan planned
    exact keeps_followPlan careful metered (atHead.idle idle) status (soundPlan planned)
      fun _ => same.ge
  | _ => exact ended

theorem keeps_runLoop (fuel : Nat) (atHead : AtHead setting care world inst) :
    Keeps setting care (Reported setting care)
      (runLoop config setting.definition lease fuel inst) world := by
  induction fuel generalizing inst world with
  | zero => exact atHead.consistent
  | succ fuel ih =>
    refine (keeps_runTurn careful metered atHead).bind ?_
    intro turn middle ended
    cases turn with
    | report report => exact ended
    | again inst => exact ih ended

/-- A drive keeps to the conduct; unless it has lost its lease, it leaves nothing
undone. -/
theorem keeps_drive (consistent : Consistent setting world) (tidy : Tidy setting care world) :
    Keeps setting care (fun report next => Consistent setting next ∧
        (report.result ≠ .leaseLost → Tidy setting care next)) (drive config lease) world := by
  refine ⟨⟨consistent, trivial⟩, ?_⟩
  rintro found same ⟨isDefinition, rfl⟩
  rcases isDefinition with rfl | rfl
  · exact consistent
  · refine ⟨⟨consistent, trivial⟩, ?_⟩
    rintro read same ⟨rfl, rfl⟩
    refine keeps_lift_bind (fun _ => consistent) ?_
    intro stored readOk
    cases stored with
    | none => exact ⟨consistent, fun _ => tidy⟩
    | some inst =>
      have holds : Holds setting same inst := (read_eq_ok readOk).2
      have driven : Keeps setting care (Reported setting care)
          (recoverInFlight setting.definition inst >>=
            runLoop config setting.definition lease maxDriveIterations) same :=
        (keeps_recoverInFlight ⟨holds, consistent, tidy⟩).bind
          fun _ _ atHead => keeps_runLoop careful metered maxDriveIterations atHead
      refine (driven.imp ?_).attempt ?_
      · rintro report final ⟨_, atHead⟩
        exact ⟨atHead.consistent, fun _ => atHead.tidy⟩
      · intro failure final stillConsistent
        by_cases conflict : failure.exnClass = .conflict
        · rw [if_pos conflict]
          exact ⟨stillConsistent, fun kept => absurd rfl kept⟩
        · rw [if_neg conflict]
          exact stillConsistent

end Loop

end AgentForge.Refinement
