import AgentForge.Guarantees.Interruptions
import AgentForge.Refinement.Turns

/-!
# Resuming after a failure

The failure policy `pause` leaves the failed step as it is.  Neither pausing nor
resuming touches it, and the planner derives the failure from the state of the
step, so a drive after the resume applies the policy once more.
-/

namespace AgentForge.Guarantees

open Domain Events Library Engine Protocol Refinement
open Program

variable {setting : Setting} {world next : World} {inst : WorkflowInstance} {log : List Event}
  {report : DriveReport} {config : Config} {lease : Lease} {start : World}

/-! ## Pauses because of a failure -/

/-- The last event has paused the workflow, because the planner had found that
the step had failed for good. -/
structure PausedFor (setting : Setting) (stepId : String) (log before : List Event)
    (reason : String) (inst : WorkflowInstance) : Prop where
  log : ∃ event, log = before ++ [event] ∧
    event.payload = .instanceStatusChanged .running .paused (some reason)
  folded : fold before (some setting.definition) = .ok inst
  failure : firstFailure inst setting.definition.steps = some (stepId, reason)
  policy : failedOnBudget inst stepId = false ∧ setting.definition.onFailure = .pause
  still : Still before

/-- What a drive has come to that has applied the failure policy and returned
`PAUSED`. -/
private def PauseExplained (setting : Setting) (start : World) (report : DriveReport)
    (next : World) : Prop :=
  ∀ record, report.result = .paused → next.policies = start.policies ++ [record] →
    ∃ before reason inst, PausedFor setting record.stepId next.log before reason inst

private theorem explained_of_policies (same : next.policies = start.policies) :
    PauseExplained setting start report next := by
  intro record _ grown
  rw [same] at grown
  exact absurd grown (by simp)

private theorem explained_of_followed {plan : Plan} {now : Time}
    (atHead : AtHead setting noCare world inst)
    (planned : Engine.plan inst setting.definition now = .ok plan) (still : Still world.log)
    (same : world.policies = start.policies)
    (followed : Followed setting inst plan world report next) :
    PauseExplained setting start report next := by
  cases followed with
  | blocked _ _ grown _ | approvals _ _ _ grown _ | completed _ _ _ _ _ _ grown _
  | parked _ _ _ _ _ _ _ grown _ => exact explained_of_policies (grown.1.trans same)
  | idle _ _ => exact explained_of_policies same
  | @failed failure _ _ _ _ found policy =>
    intro record paused applied
    obtain ⟨samePolicies, _⟩ := policy.grown
    obtain ⟨unbudgeted, onFailure⟩ := policy.paused paused
    obtain ⟨_, _, batch, log, payloads⟩ := policy.pause unbudgeted onFailure
    obtain ⟨event, rfl, payload⟩ := List.map_eq_singleton_iff.mp payloads
    have noted : world.policies ++ [⟨failure.1, world.log⟩] = start.policies ++ [record] :=
      samePolicies.symm.trans applied
    rw [same] at noted
    obtain rfl := List.singleton_inj.mp (List.append_cancel_left noted)
    refine ⟨world.log, failure.2, inst, ?_⟩
    constructor
    case log => exact ⟨event, log, payload⟩
    case folded => exact atHead.holds
    case failure => exact (terminalFailure_of_plan planned).1.symm.trans found
    case policy => exact ⟨unbudgeted, onFailure⟩
    case still => exact still

/-- Drives pause because of failures only. -/
private theorem safe_pausing (consistent : Consistent setting world)
    (leased : (lease.instanceId, lease.tenantId) = setting.owner) :
    Safe (answers setting) (fun _ _ => True) (PauseExplained setting world) (fun _ _ => True)
      (drive config lease) world := by
  apply safe_drive_of_conducted (fun _ _ _ _ => id) consistent
  have calm := @calm_of_granted setting (answers setting) True (fun _ _ _ _ => id)
    fun _ _ _ _ _ => .inr trivial
  apply runs_drive calm consistent leased
  · intro _ report next lost record paused
    rw [lost] at paused
    cases paused
  · intro result recoveredWorld atHead recovered
    refine @runs_runLoop _ _ _ _ _ calm config (fun _ => True) lease (.of_breaks config trivial)
      (fun _ _ current => current.policies = world.policies ∧ Still current.log) _
      (fun _ _ _ => trivial) ?_ ?_ _ atHead ⟨recovered.grown.1, recovered.not_running⟩
    · rintro _ inst current result next ⟨same, still⟩ _ _ turned
      refine ⟨?_, turned.still still⟩
      cases turned with
      | woken _ _ _ _ grown => exact grown.1.trans same
      | waved _ _ _ _ idle done =>
        exact ((Grown.of_idle idle).trans done.grown).1.trans same
    · rintro _ inst current report next ⟨same, still⟩ atHead turned
      cases turned with
      | rested _ _ => exact explained_of_policies same
      | followed _ planned idle followed =>
        refine explained_of_followed (atHead.idle idle) planned (idle.log.symm ▸ still) ?_
          followed
        exact (idle.grown).1.trans same

/-- A drive has left this log that has paused the workflow because the step had
failed for good. -/
def PausedByDrive (setting : Setting) (stepId : String) (log : List Event) : Prop :=
  ∃ start next config lease report record,
    Reachable setting anywhere start ∧ (lease.instanceId, lease.tenantId) = setting.owner ∧
      Steps (answers setting) start (drive config lease) next (.done report) ∧
      report.result = .paused ∧ next.policies = start.policies ++ [record] ∧
      record.stepId = stepId ∧ next.log = log

private theorem PausedByDrive.explained {stepId : String}
    (paused : PausedByDrive setting stepId log) :
    ∃ before reason inst, PausedFor setting stepId log before reason inst := by
  obtain ⟨start, next, config, lease, report, record, reachable, leased, steps, isPaused, grown,
    rfl, rfl⟩ := paused
  exact (safe_pausing (consistent_of_reachable reachable) leased).steps steps record isPaused grown

/-! ## Resuming -/

/-- A transition by an operator that goes through. -/
theorem safe_controlTransition {target : WorkflowStatus} {reason : String} {tries : Nat}
    (folded : fold log none = .ok inst) (moves : inst.status ≠ target) (sameLog : world.log = log) :
    Safe (answers setting) (fun _ _ => True) (fun _ next => ∃ event, next.log = log ++ [event] ∧
        event.payload = .instanceStatusChanged inst.status target (some reason)) (fun _ _ => True)
      (controlTransition setting.instanceId setting.tenantId target reason tries) world := by
  induction tries generalizing world with
  | zero => trivial
  | succ tries ih =>
    refine ⟨trivial, ?_⟩
    rintro response same ⟨rfl, rfl⟩
    have readOk : same.read setting setting.instanceId setting.tenantId none =
        .ok (some inst) := by
      unfold World.read
      rw [if_pos (show (setting.instanceId, setting.tenantId) = setting.owner from rfl), sameLog,
        folded]
    rw [readOk]
    change Safe _ _ _ _ (ite _ _ (ite _ _ (ite _ _ _))) same
    rw [if_neg moves]
    split
    · trivial
    split
    · trivial
    refine ⟨trivial, ?_⟩
    rintro eventId drawn ⟨_, rfl⟩
    refine ⟨trivial, ?_⟩
    rintro occurredAt timed ⟨_, rfl⟩
    refine ⟨trivial, ?_⟩
    rintro answer next (⟨failure, rfl, rfl⟩ | ⟨committed, rfl⟩)
    · change Safe _ _ _ _ (ite _ _ _) _
      split
      · exact ih sameLog
      · trivial
    · obtain ⟨_, _, _, _, _, rfl⟩ := commit_eq_ok committed
      exact ⟨_, congrArg (· ++ _) sameLog, rfl⟩

/-- Moving the workflow leaves the states of the steps alone. -/
private theorem stepStates_of_moves {definition : Option WorkflowDefinition} {events : List Event}
    {later : WorkflowInstance} (folded : fold log definition = .ok inst)
    (moves : ∀ event ∈ events, ∃ source target reason,
      event.payload = .instanceStatusChanged source target reason)
    (foldedLater : fold (log ++ events) definition = .ok later) :
    later.stepStates = inst.stepStates := by
  refine fixed_of_fold_base WorkflowInstance.stepStates (fun _ _ _ => rfl) ?_
    ((fold_append folded).mp foldedLater)
  intro event member current next handled
  obtain ⟨source, target, reason, payload⟩ := moves event member
  unfold handle at handled
  rw [payload] at handled
  obtain ⟨_, _, rfl⟩ := onWorkflowStatus_eq_ok.mp handled
  rfl

/-! ## The drive after the resume -/

section Again

variable {sem : Semantics World Op Op.Result} {breaks : Prop} {config : Config} {lease : Lease}
  {failure : String × String} (calm : Calm setting sem breaks)

include calm

/-- The policy `pause`, when it is not the budget that made the step fail. -/
private theorem runs_pausePolicy (holds : Holds setting world inst)
    (unbudgeted : failedOnBudget inst failure.1 = false)
    (onFailure : setting.definition.onFailure = .pause) : Runs sem breaks
      (fun report next => report.result = .paused ∧
        Wrote [.instanceStatusChanged .running .paused (some failure.2)]
          (world.note (.policyApplied failure.1)) next)
      (applyFailurePolicy config setting.definition inst failure) world := by
  refine ⟨trivial, ?_⟩
  intro _ noted told
  obtain rfl : noted = world.note (.policyApplied failure.1) := calm.admitted _ _ _ _ told
  change Runs sem breaks _ (if failedOnBudget inst failure.1 = true then _ else _) _
  rw [if_neg (by simp [unbudgeted]), onFailure]
  have held : Holds setting (world.note (.policyApplied failure.1)) inst := holds
  refine (runs_transition calm held _ none).bind ?_
  rintro result next ⟨_, wrote⟩
  exact ⟨rfl, wrote⟩

/-- A loop that starts with a failed step applies the policy and nothing else. -/
private theorem runs_pauseAgain {fuel : Nat} (holds : Holds setting world inst)
    (running : inst.status = .running)
    (failed : firstFailure inst setting.definition.steps = some failure)
    (unbudgeted : failedOnBudget inst failure.1 = false)
    (onFailure : setting.definition.onFailure = .pause) : Runs sem breaks
      (fun report next => report.result = .paused ∧ ∃ event, next.log = world.log ++ [event] ∧
        event.payload = .instanceStatusChanged .running .paused (some failure.2))
      (runLoop config setting.definition lease (fuel + 1) inst) world := by
  have turns : Runs sem breaks
      (fun turn next => ∃ report, turn = .report report ∧ report.result = .paused ∧
        ∃ event, next.log = world.log ++ [event] ∧
          event.payload = .instanceStatusChanged .running .paused (some failure.2))
      (runTurn config setting.definition lease inst) world := by
    unfold runTurn
    rw [running]
    refine (runs_now calm).bind ?_
    intro now timed idle
    obtain ⟨plan, planned⟩ := exists_plan holds.stored now
    refine runs_lift_bind planned ?_
    obtain ⟨terminal, alone⟩ := terminalFailure_of_plan planned
    rw [failed] at terminal
    obtain ⟨unblocked, unasked⟩ := alone (by simp [terminal])
    unfold followPlan
    rw [unblocked, unasked, terminal]
    refine (runs_pausePolicy calm (holds.idle idle) unbudgeted onFailure).map ?_
    rintro report next ⟨isPaused, _, batch, log, payloads⟩
    obtain ⟨event, rfl, payload⟩ := List.map_eq_singleton_iff.mp payloads
    refine ⟨report, rfl, isPaused, event, log.trans ?_, payload⟩
    change timed.log ++ [event] = _
    rw [idle.log]
  refine turns.bind ?_
  rintro _ next ⟨report, rfl, isPaused, written⟩
  exact ⟨isPaused, written⟩

end Again

/-- The resumed instance is where it was when the policy was applied. -/
private theorem PausedFor.resumed {stepId reason : String} {before : List Event}
    {resuming : Event} {why : Option String}
    (paused : PausedFor setting stepId world.log before reason inst)
    (consistent : Consistent setting next) (grown : next.log = world.log ++ [resuming])
    (payload : resuming.payload = .instanceStatusChanged .paused .running why) :
    ∃ later, Holds setting next later ∧ later.status = .running ∧
      firstFailure later setting.definition.steps = some (stepId, reason) ∧
      failedOnBudget later stepId = false ∧ Still next.log := by
  obtain ⟨⟨pausing, logged, pausePayload⟩, folded, failure, ⟨unbudgeted, _⟩, still⟩ := paused
  have nextLogged : next.log = before ++ [pausing, resuming] := by
    rw [grown, logged, List.append_assoc, List.singleton_append]
  obtain ⟨later, foldedLater, _⟩ := consistent.folds
  have sameSteps : later.stepStates = inst.stepStates := by
    apply stepStates_of_moves folded _ (nextLogged ▸ foldedLater)
    intro event member
    rcases List.mem_pair.mp member with rfl | rfl
    · exact ⟨_, _, _, pausePayload⟩
    · exact ⟨_, _, _, payload⟩
  refine ⟨later, foldedLater, ?_, ?_, ?_, ?_⟩
  · rw [status_of_fold foldedLater, grown, replay_concat, State.after, payload]
    rfl
  · rw [← failure]
    unfold firstFailure WorkflowInstance.stepOr
    rw [sameSteps]
  · rw [← unbudgeted]
    unfold failedOnBudget
    rw [sameSteps]
  · intro stepId
    rw [grown, logged, replay_concat, replay_concat, State.after, State.after, payload,
      pausePayload]
    exact still stepId

/-- A drive that nothing disturbs, from where a step has failed for good. -/
private theorem safe_pauseAgain {failure : String × String} (consistent : Consistent setting world)
    (holds : Holds setting world inst) (running : inst.status = .running) (still : Still world.log)
    (failed : firstFailure inst setting.definition.steps = some failure)
    (unbudgeted : failedOnBudget inst failure.1 = false)
    (onFailure : setting.definition.onFailure = .pause)
    (leased : (lease.instanceId, lease.tenantId) = setting.owner) :
    Safe (undisturbed setting) (fun _ _ => True)
      (fun report final => report.result = .paused ∧ ∃ event, final.log = world.log ++ [event] ∧
        event.payload = .instanceStatusChanged .running .paused (some failure.2))
      (fun _ _ => False) (drive config lease) world := by
  apply safe_drive_of_conducted (fun _ _ _ _ told => told.1) consistent
  have calm := @calm_of_granted setting (undisturbed setting) False
    (fun _ _ _ _ told => told.1) fun _ _ _ _ told => .inl told.2
  apply runs_drive calm consistent leased
  · exact False.elim
  · intro result recoveredWorld atHead recovered
    have same : recoveredWorld.log = world.log := recovered.still still
    obtain rfl : result = inst := by
      have held := atHead.holds
      unfold Holds at held holds
      rw [same, holds] at held
      exact (Except.ok.inj held).symm
    rw [← same]
    exact runs_pauseAgain calm atHead.holds running failed unbudgeted onFailure

/-- **Pausing again.**  After a resume the next drive that nothing disturbs ends,
and however it ends it has moved the workflow back to `PAUSED` for the same reason
and has written nothing else. -/
theorem resumed_drive_pauses_again {stepId operator : String} {config : Config} {lease : Lease}
    (reachable : Reachable setting anywhere world)
    (paused : PausedByDrive setting stepId world.log)
    (admitted : setting.admits (.resume operator))
    (resumed : Steps (answers setting) world ((Actor.resume operator).program setting) next
      (.done none))
    (leased : (lease.instanceId, lease.tenantId) = setting.owner) :
    (∃ final outcome, Steps (undisturbed setting) next (drive config lease) final
      (ended outcome)) ∧
    ∀ final outcome, Steps (undisturbed setting) next (drive config lease) final (ended outcome) →
      ∃ report event reason, outcome = .ok report ∧ report.result = .paused ∧
        final.log = next.log ++ [event] ∧
        event.payload = .instanceStatusChanged .running .paused (some reason) ∧
        world.log.getLast?.map Event.payload = some event.payload := by
  refine ⟨exists_undisturbed_end setting _ next, ?_⟩
  obtain ⟨before, reason, inst, explained⟩ := paused.explained
  obtain ⟨pausing, logged, pausePayload⟩ := explained.log
  have consistent : Consistent setting next :=
    consistent_of_reachable (.act (.resume operator) reachable admitted resumed trivial)
  obtain ⟨bare, bareFolded, _⟩ := (fold_agree (some setting.definition) _).ok_left
    (consistent_of_reachable reachable).folds.choose_spec.1
  have wasPaused : bare.status = .paused := by
    rw [status_of_fold bareFolded, logged, replay_concat, State.after, pausePayload]
    rfl
  have moves : Safe (answers setting) (fun _ _ => True)
      (fun _ next => ∃ event, next.log = world.log ++ [event] ∧
        event.payload = .instanceStatusChanged bare.status .running
          (some ("resumed by " ++ operator)))
      (fun _ _ => True) ((Actor.resume operator).program setting) world :=
    (safe_controlTransition bareFolded (by simp [wasPaused]) rfl).bind fun _ _ moved => moved
  obtain ⟨resuming, grown, payload⟩ := moves.steps resumed
  rw [wasPaused] at payload
  obtain ⟨later, holds, running, failed, unbudgeted, still⟩ :=
    explained.resumed consistent grown payload
  intro final outcome steps
  have ends := (safe_pauseAgain consistent holds running still failed unbudgeted
    explained.policy.2 leased).steps steps
  cases outcome with
  | error failed => exact ends.elim
  | ok report =>
      obtain ⟨isPaused, event, finalLog, payload⟩ := ends
      refine ⟨report, event, reason, rfl, isPaused, finalLog, payload, ?_⟩
      rw [logged, List.getLast?_concat, Option.map_some, pausePayload, payload]

/-! ## A download that fails -/

/-- The event moves the workflow to `PAUSED`. -/
def pauses : Payload → Bool
  | .instanceStatusChanged _ .paused _ => true
  | _ => false

/-- The event starts the step, or asks for an approval of it. -/
def triesAgain (stepId : String) : Payload → Prop
  | .stepStarted started _ _ _ => started = stepId
  | .escalationRaised escalation =>
      escalation.stepId = stepId ∧ escalation.reason = "explicit_approval"
  | _ => False

/-- The step is tried again before the workflow is paused. -/
def TriesFirst (stepId : String) (events : List Event) : Prop :=
  ∃ event ∈ events.takeWhile fun event => !pauses event.payload, triesAgain stepId event.payload

/-- A worker whose steps refuse their input. -/
def refusingConfig : Config where
  registry := fun _ => some fun _ =>
    .raise { exnClass := .exception, typeName := "ValueError", message := "malformed" }
  digestMessages := fun _ _ => ""

def fetchLease : Lease where
  instanceId := "instance"
  tenantId := "tenant"
  workflowId := "fetch"
  workflowVersion := "1.0.0"
  workerId := "worker"

/-- The first drive: the step fails and the workflow is paused. -/
@[irreducible]
def firstFetch : Except Exn DriveReport × World :=
  perform fetchSetting {} (drive refusingConfig fetchLease) (.opened fetchSetting none)

/-- The operator resumes the workflow. -/
@[irreducible]
def resumedFetch : Except Exn (Option DriveReport) × World :=
  perform fetchSetting {} ((Actor.resume "operator").program fetchSetting) firstFetch.2

/-- The drive after that. -/
@[irreducible]
def secondFetch : Except Exn DriveReport × World :=
  perform fetchSetting {} (drive refusingConfig fetchLease) resumedFetch.2

private theorem steps_firstFetch :
    ∃ report, Steps (answers fetchSetting) (.opened fetchSetting none)
      (drive refusingConfig fetchLease) firstFetch.2 (.done report) ∧ report.result = .paused := by
  have steps := steps_perform (World.answers_answer fetchSetting {})
    (drive refusingConfig fetchLease) (.opened fetchSetting none)
  obtain ⟨report, isReport, isPaused⟩ := exists_ok_of_map (by
    decide +kernel : firstFetch.1.toOption.map DriveReport.result = some .paused)
  unfold firstFetch at isReport ⊢
  rw [isReport] at steps
  exact ⟨report, steps, isPaused⟩

private theorem reachable_firstFetch : Reachable fetchSetting anywhere firstFetch.2 := by
  obtain ⟨report, steps, _⟩ := steps_firstFetch
  exact (reachable_opened fetchSetting anywhere none).drive rfl steps

private theorem pausedByDrive_firstFetch :
    PausedByDrive fetchSetting "download" firstFetch.2.log := by
  obtain ⟨report, steps, isPaused⟩ := steps_firstFetch
  have applied : firstFetch.2.policies.map PolicyRecord.stepId = ["download"] := by decide +kernel
  obtain ⟨record, single, named⟩ := List.map_eq_singleton_iff.mp applied
  exact ⟨_, _, _, _, report, record, reachable_opened fetchSetting anywhere none, rfl, steps,
    isPaused, single, named, rfl⟩

private theorem steps_resumedFetch : Steps (answers fetchSetting) firstFetch.2
      ((Actor.resume "operator").program fetchSetting) resumedFetch.2 (.done none) := by
  have steps := steps_perform (World.answers_answer fetchSetting {})
    ((Actor.resume "operator").program fetchSetting) firstFetch.2
  obtain ⟨report, isReport, isNone⟩ := exists_ok_of_map (by
    decide +kernel : resumedFetch.1.toOption.map Option.isNone = some true)
  rw [Option.isNone_iff_eq_none] at isNone
  unfold resumedFetch at isReport ⊢
  rwa [isReport, isNone] at steps

/-- The drive after the resume pauses the workflow once more. -/
theorem resumed_drive_pauses_again_fetch :
    ∃ final outcome, Steps (undisturbed fetchSetting) resumedFetch.2
      (drive refusingConfig fetchLease) final (ended outcome) ∧
      outcome.toOption.map DriveReport.result = some .paused := by
  obtain ⟨⟨final, outcome, steps⟩, all⟩ := resumed_drive_pauses_again reachable_firstFetch
    pausedByDrive_firstFetch rfl steps_resumedFetch
    (rfl : (fetchLease.instanceId, fetchLease.tenantId) = fetchSetting.owner)
  obtain ⟨report, _, _, rfl, isPaused, _⟩ := all final outcome steps
  exact ⟨final, .ok report, steps, congrArg some isPaused⟩

/-- The drive after the resume has no budget to mind, and does not start the failed
step. -/
theorem failed_step_not_tried_again :
    fetchSetting.definition.onFailure = .pause ∧
      ∃ world next final report inst more, Reachable fetchSetting anywhere world ∧
        PausedByDrive fetchSetting "download" world.log ∧
        Steps (answers fetchSetting) world ((Actor.resume "operator").program fetchSetting) next
          (.done none) ∧
        fold next.log (some fetchSetting.definition) = .ok inst ∧
        inst.remainingBudgetUsd = none ∧
        Steps (undisturbed fetchSetting) next (drive refusingConfig fetchLease) final
          (.done report) ∧
        final.log = next.log ++ more ∧ ¬ TriesFirst "download" more := by
  refine ⟨rfl, ?_⟩
  have steps := steps_perform (undisturbed_answer fetchSetting {})
    (drive refusingConfig fetchLease) resumedFetch.2
  obtain ⟨report, isReport, _⟩ := exists_ok_of_map (by
    decide +kernel : secondFetch.1.toOption.map DriveReport.result = some .paused)
  obtain ⟨inst, folded, unlimited⟩ := exists_ok_of_map (by
    decide +kernel : (fold resumedFetch.2.log (some fetchSetting.definition)).toOption.map
      WorkflowInstance.remainingBudgetUsd = some none)
  have written : secondFetch.2.eventTypes.drop resumedFetch.2.log.length =
      ["InstanceStatusChanged"] := by decide +kernel
  unfold secondFetch at isReport written
  rw [isReport] at steps
  obtain ⟨more, grown⟩ := log_of_steps (steps_perform (World.answers_answer fetchSetting {})
    (drive refusingConfig fetchLease) resumedFetch.2)
  refine ⟨firstFetch.2, resumedFetch.2, _, report, inst, more, reachable_firstFetch,
    pausedByDrive_firstFetch, steps_resumedFetch, folded, unlimited, steps, grown, ?_⟩
  rintro ⟨event, member, again⟩
  have listed : event.payload.eventType ∈ ["InstanceStatusChanged"] := by
    rw [← written, World.eventTypes, grown, List.map_append, List.drop_left' (List.length_map ..)]
    exact List.mem_map_of_mem ((List.takeWhile_prefix _).subset member)
  revert again listed
  generalize event.payload = payload
  cases payload <;> simp [triesAgain, Payload.eventType]

end AgentForge.Guarantees
