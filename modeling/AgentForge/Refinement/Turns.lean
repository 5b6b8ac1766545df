import AgentForge.Refinement.Uninterrupted

/-!
# Turns of an uninterrupted drive

What each iteration of the driver's loop comes to when nothing disturbs it: the
workflow is woken, a wave is dispatched, or the drive ends with a report.
-/

namespace AgentForge.Refinement

open Domain Events Library Engine Protocol
open Program

variable {setting : Setting} {world next : World} {inst : WorkflowInstance}
  {report : DriveReport} {circumstances : Semantics World Op Op.Result}
  {outcomes : StepOutcome → Prop}

/-! ## Recovery -/

private theorem afterAll_recovered {stepIds : List String} {batch : List Event}
    {reason : Option String} {state : State} (payloads : batch.map Event.payload =
      stepIds.map fun stepId => .stepStatusChanged stepId .running .ready reason) :
    (state.afterAll batch).status = state.status ∧
      (state.afterAll batch).escalations = state.escalations ∧
      ∀ stepId, (state.afterAll batch).steps stepId =
        if stepId ∈ stepIds then { state.steps stepId with status := .ready }
        else state.steps stepId := by
  induction stepIds generalizing batch state with
  | nil =>
    obtain rfl := List.map_eq_nil_iff.mp payloads
    simp [State.afterAll]
  | cons first rest ih =>
    obtain ⟨event, others, rfl, payload, othersOk⟩ := List.map_eq_cons_iff.mp payloads
    have advanced : state.after event = { state with
        log := state.log ++ [event]
        steps := Function.update state.steps first
          { state.steps first with status := .ready } } := by
      rw [State.after, payload]
      rfl
    obtain ⟨status, escalations, steps⟩ := @ih others (state.after event) othersOk
    change ((state.after event).afterAll others).status = _ ∧
      ((state.after event).afterAll others).escalations = _ ∧
      ∀ stepId, ((state.after event).afterAll others).steps stepId = _
    refine ⟨?_, ?_, ?_⟩
    · rw [status, advanced]
    · rw [escalations, advanced]
    · intro stepId
      rw [steps, advanced]
      by_cases same : stepId = first
      · subst same
        simp
      · simp [same]

/-- The steps that a dead worker left running are ready again. -/
structure Recovered (world next : World) : Prop where
  status : (replay next.log).status = (replay world.log).status
  escalations : (replay next.log).escalations = (replay world.log).escalations
  steps : ∀ stepId, (replay next.log).steps stepId =
    if ((replay world.log).steps stepId).status = .running then
      { (replay world.log).steps stepId with status := .ready }
    else (replay world.log).steps stepId
  still : (∀ stepId, ((replay world.log).steps stepId).status ≠ .running) → next.log = world.log
  grown : Grown recovers world next

theorem Recovered.not_running (recovered : Recovered world next) (stepId : String) :
    ((replay next.log).steps stepId).status ≠ .running := by
  rw [recovered.steps]
  split
  · simp
  · assumption

private theorem mem_staleSteps_iff (holds : Holds setting world inst) {stepId : String} :
    stepId ∈ staleSteps inst ↔ ((replay world.log).steps stepId).status = .running := by
  refine ⟨running_of_mem_staleSteps holds, ?_⟩
  intro running
  rw [holds.steps] at running
  change (inst.stepOr stepId).status = .running at running
  cases stored : inst.stepStates.get? stepId with
  | none => simp [WorkflowInstance.stepOr, stored] at running
  | some state =>
    rw [WorkflowInstance.stepOr_of_get? stored] at running
    refine List.mem_map.mpr ⟨(stepId, state), List.mem_filter.mpr ⟨?_, ?_⟩, rfl⟩
    · exact Dict.get?_eq_some_iff.mp stored
    · simpa using running

/-! ## Conclusions -/

theorem Idle.grown (idle : Idle setting world next) : Grown (fun _ => False) world next :=
  .of_idle idle

/-- Events by which a drive does something about its workflow. -/
def acts : Payload → Prop
  | .stepStarted .. => True
  | .escalationRaised _ => True
  | .budgetExceeded .. => True
  | .instanceCompleted _ => True
  | .instanceStatusChanged _ .retrying _ => True
  | _ => False

/-- The event raises an escalation for this reason. -/
def raisesReason (reason : String) : Payload → Prop
  | .escalationRaised escalation => escalation.reason = reason
  | _ => False

/-- The last of the written events moves the workflow. -/
theorem Wrote.status {payloads : List Payload} {source target : WorkflowStatus}
    {reason : Option String}
    (wrote : Wrote (payloads ++ [.instanceStatusChanged source target reason]) world next) :
    (replay next.log).status = target := by
  obtain ⟨_, batch, log, same⟩ := wrote
  obtain ⟨first, last, rfl, _, lastOk⟩ := List.map_eq_append_iff.mp same
  obtain ⟨event, rfl, payload⟩ := List.map_eq_singleton_iff.mp lastOk
  rw [log, ← List.append_assoc, replay_concat, State.after, payload]
  rfl

theorem Wrote.moved {source target : WorkflowStatus} {reason : Option String}
    (wrote : Wrote [.instanceStatusChanged source target reason] world next) :
    Grown concludes world next := by
  apply wrote.grown
  intro payload listed
  rw [List.mem_singleton.mp listed]
  exact concludes_moved source target reason

/-- The step failed because its call would have exceeded the budget. -/
def failedOnBudget (inst : WorkflowInstance) (stepId : String) : Bool :=
  (inst.stepStates.get? stepId).any fun state => state.errorType = some "BudgetExceededError"

/-- A roll-back has ended: the workflow is rolled back, or an escalation asks for
help with a failed compensation. -/
def RollbackEnded (world : World) (report : DriveReport) (next : World) : Prop :=
  report.result = .rolledBack ∧ (replay next.log).status = .rolledBack ∨
    report.result = .waitingApproval ∧ (replay next.log).status = .waitingApproval ∧
      Logged (raisesReason "compensation_failed") world next

/-- The failure policy has been applied. -/
structure PolicyFollowed (setting : Setting) (inst : WorkflowInstance)
    (failure : String × String) (world : World) (report : DriveReport) (next : World) :
    Prop where
  busy : report.result ≠ .idle
  paused : report.result = .paused → failedOnBudget inst failure.1 = false ∧
    setting.definition.onFailure = .pause
  grown : Grown concludes (world.note (.policyApplied failure.1)) next
  rollback : failedOnBudget inst failure.1 = false → setting.definition.onFailure = .rollback →
    RollbackEnded world report next
  pause : failedOnBudget inst failure.1 = false → setting.definition.onFailure = .pause →
    report.result = .paused ∧ Wrote [.instanceStatusChanged .running .paused (some failure.2)]
      (world.note (.policyApplied failure.1)) next

/-- How a drive ends when it follows a plan. -/
inductive Followed (setting : Setting) (inst : WorkflowInstance) (plan : Plan) (world : World) :
    DriveReport → World → Prop
  | blocked {report : DriveReport} {next : World} : plan.budgetBlockedStep ≠ none →
      report.result = .paused → Grown concludes world next → Logged acts world next →
      Followed setting inst plan world report next
  | approvals {report : DriveReport} {next : World} : plan.budgetBlockedStep = none →
      plan.approvalNeeded ≠ [] → report.result = .waitingApproval →
      Grown concludes world next → Logged acts world next →
      Followed setting inst plan world report next
  | failed {failure : String × String} {report : DriveReport} {next : World} :
      plan.budgetBlockedStep = none → plan.approvalNeeded = [] →
      plan.terminalFailure = some failure →
      PolicyFollowed setting inst failure world report next →
      Followed setting inst plan world report next
  | completed {report : DriveReport} {next : World} : plan.budgetBlockedStep = none →
      plan.approvalNeeded = [] → plan.terminalFailure = none → plan.dispatch = [] →
      plan.allSettled = true → report.result = .completed → Grown concludes world next →
      Logged acts world next → Followed setting inst plan world report next
  | parked {report : DriveReport} {next : World} : plan.budgetBlockedStep = none →
      plan.approvalNeeded = [] → plan.terminalFailure = none → plan.dispatch = [] →
      plan.allSettled = false → plan.retryWakeup ≠ none → report.result = .parked →
      Grown concludes world next → Logged acts world next →
      Followed setting inst plan world report next
  | idle {report : DriveReport} : ¬ plan.Acts → report.result = .idle →
      Followed setting inst plan world report world

/-- What an iteration of the loop comes to. -/
inductive Turned (setting : Setting) (outcomes : StepOutcome → Prop) (inst : WorkflowInstance)
    (world : World) : Turn → World → Prop
  | woken {result : WorkflowInstance} {next : World} :
      inst.status = .pending ∨ inst.status = .retrying → result.status = .running →
      (replay next.log).steps = (replay world.log).steps →
      (replay next.log).escalations = (replay world.log).escalations →
      Grown concludes world next → Turned setting outcomes inst world (.again result) next
  | waved {plan : Plan} {now : Time} {timed : World} {results : List AttemptResult}
      {result : WorkflowInstance} {next : World} :
      inst.status = .running → Engine.plan inst setting.definition now = .ok plan →
      plan.terminalFailure = none → plan.dispatch ≠ [] → Idle setting world timed →
      WaveDone setting outcomes plan.dispatch results timed next →
      Turned setting outcomes inst world (.again result) next
  | followed {plan : Plan} {now : Time} {timed : World} {report : DriveReport} {next : World} :
      inst.status = .running → Engine.plan inst setting.definition now = .ok plan →
      Idle setting world timed → Followed setting inst plan timed report next →
      Turned setting outcomes inst world (.report report) next
  | rested {report : DriveReport} : ¬ workable inst.status → report.result ≠ .idle →
      Turned setting outcomes inst world (.report report) world

/-! ## Steps that are not running -/

/-- No step is running. -/
def Still (log : List Event) : Prop :=
  ∀ stepId, ((replay log).steps stepId).status ≠ .running

theorem WaveDone.still {dispatch : List (String × Nat)} {results : List AttemptResult}
    (done : WaveDone setting outcomes dispatch results world next) (still : Still world.log) :
    Still next.log := by
  intro stepId
  by_cases listed : stepId ∈ results.map AttemptResult.stepId
  · obtain ⟨result, member, rfl⟩ := List.mem_map.mp listed
    cases outcome : result.outcome with
    | failure failure => simp [(done.settled.failed result member failure outcome).1]
    | success success =>
      cases asked : success.review with
      | none => simp [done.settled.completed result member success outcome asked]
      | some review =>
        have held := done.settled.held result member (by simp [outcome, asked,
          StepOutcome.review])
        simp [held]
  · rw [done.settled.untouched stepId listed]
    exact still stepId

/-- Between two iterations no step is running. -/
theorem Turned.still {result : WorkflowInstance}
    (turned : Turned setting outcomes inst world (.again result) next) (still : Still world.log) :
    Still next.log := by
  cases turned with
  | woken _ _ sameSteps _ _ =>
    intro stepId
    rw [sameSteps]
    exact still stepId
  | waved _ _ _ _ idle done => exact done.still (idle.log.symm ▸ still)

section Turns

variable {sem : Semantics World Op Op.Result} {breaks : Prop} (calm : Calm setting sem breaks)
  {outcomes : StepOutcome → Prop} {config : Config} {steps : List WorkflowStep}
  {post : DriveReport → World → Prop} {lease : Lease}

include calm

theorem runs_recoverInFlight (holds : Holds setting world inst) :
    Runs sem breaks (fun result next => Holds setting next result ∧ Recovered world next)
      (recoverInFlight setting.definition inst) world := by
  have recovering : ∀ payload ∈ (staleSteps inst).map fun stepId =>
      Payload.stepStatusChanged stepId .running .ready (some "worker-recovered"),
      steers payload ∧ recovers payload := by
    intro payload listed
    obtain ⟨stepId, _, rfl⟩ := List.mem_map.mp listed
    exact ⟨⟨rfl, .inr rfl⟩, trivial⟩
  have written : Runs sem breaks _ _ world := runs_write calm holds
    (fun payload listed => (recovering payload listed).1) none
  rw [traverse_map] at written
  refine written.imp ?_
  rintro result next ⟨nextHolds, wrote⟩
  refine ⟨nextHolds, ?_⟩
  have grown := wrote.grown fun payload listed => (recovering payload listed).2
  obtain ⟨_, batch, log, payloads⟩ := wrote
  obtain ⟨status, escalations, steps⟩ := @afterAll_recovered _ _ _ (replay world.log) payloads
  constructor
  case status => rw [log, replay_append, status]
  case escalations => rw [log, replay_append, escalations]
  case steps =>
    intro stepId
    rw [log, replay_append, steps]
    simp only [mem_staleSteps_iff holds]
  case still =>
    intro none
    have empty : staleSteps inst = [] := by
      apply List.eq_nil_iff_forall_not_mem.mpr
      exact fun stepId member => none stepId (running_of_mem_staleSteps holds member)
    rw [empty, List.map_nil, List.map_eq_nil_iff] at payloads
    rw [log, payloads, List.append_nil]
  case grown => exact grown

/-- Two concluding events are written and the drive ends. -/
private theorem runs_pair {first second : Payload} {report : DriveReport}
    (holds : Holds setting world inst) (one : concludes first) (other : concludes second) :
    Runs sem breaks
      (fun result next => result = report ∧ Wrote [first, second] world next ∧
        Grown concludes world next)
      (do
        let one ← draftEvent inst first
        let other ← draftEvent inst second
        let _ ← append setting.definition inst [one, other]
        pure report) world := by
  have concluding : ∀ payload ∈ [first, second], concludes payload := by
    rintro payload (_ | ⟨_, _ | ⟨_, ⟨⟩⟩⟩)
    · exact one
    · exact other
  refine (runs_write calm holds
    (fun payload listed => (concluding payload listed).1.1) none).bind ?_
  rintro result next ⟨_, wrote⟩
  exact ⟨rfl, wrote, wrote.grown concluding⟩

theorem runs_blockOnBudget (holds : Holds setting world inst) (stepId : String) : Runs sem breaks
      (fun report next => report.result = .paused ∧ Grown concludes world next ∧
        Logged acts world next) (blockOnBudget setting.definition inst stepId) world := by
  refine Safe.imp (runs_pair calm holds ?_ (concludes_moved _ _ _)) ?_
  · exact ⟨⟨trivial, id⟩, fun _ => id⟩
  · rintro report next ⟨rfl, wrote, grown⟩
    exact ⟨rfl, grown, wrote.logged List.mem_cons_self trivial⟩

theorem runs_complete (holds : Holds setting world inst) : Runs sem breaks
      (fun report next => report.result = .completed ∧ Grown concludes world next ∧
        Logged acts world next) (complete setting.definition inst) world := by
  refine Safe.imp (runs_pair calm holds (concludes_moved _ _ _) ?_) ?_
  · exact ⟨⟨trivial, id⟩, fun _ => id⟩
  · rintro report next ⟨rfl, wrote, grown⟩
    exact ⟨rfl, grown, wrote.logged (List.mem_cons_of_mem _ List.mem_cons_self) trivial⟩

theorem runs_transition {source target : WorkflowStatus} (holds : Holds setting world inst)
    (reason : Option String) (wakeup : Option Time) : Runs sem breaks
      (fun result next => Holds setting next result ∧
        Wrote [.instanceStatusChanged source target reason] world next)
      (transition setting.definition inst source target reason wakeup) world := by
  refine runs_write calm holds ?_ wakeup
  intro payload listed
  rw [List.mem_singleton.mp listed]
  trivial

theorem runs_escalate {stepId reason recommendation parkReason : String}
    (holds : Holds setting world inst) : Runs sem breaks
      (fun report next => report.result = .waitingApproval ∧
        (replay next.log).status = .waitingApproval ∧ Grown concludes world next ∧
        Logged (raisesReason reason) world next)
      (escalate setting.definition inst stepId reason recommendation parkReason) world := by
  refine (runs_newId calm).bind ?_
  intro escalationId drawn idle
  refine (runs_pair calm (holds.idle idle) (concludes_raised _) (concludes_moved _ _ _)).imp ?_
  rintro report next ⟨rfl, wrote, grown⟩
  refine ⟨rfl, @Wrote.status drawn next [_] _ _ _ wrote, (Grown.of_idle idle).trans grown, ?_⟩
  have raised : Logged (raisesReason reason) drawn next := wrote.logged List.mem_cons_self rfl
  exact raised.after (idle.grown)

omit calm in
theorem runs_compensateSteps (carries : Carries setting sem config outcomes breaks)
    (known : ∀ step ∈ steps, step ∈ setting.definition.steps) :
    Runs sem breaks (fun _ _ => True) (compensateSteps config inst steps) world := by
  induction steps generalizing world with
  | nil => trivial
  | cons step rest ih =>
    refine (carries.compensates inst step (known step List.mem_cons_self) world).settle.bind ?_
    intro outcome middle ended
    cases outcome with
    | ok value => exact ih fun other member => known other (List.mem_cons_of_mem _ member)
    | error failure =>
      dsimp only
      split
      · trivial
      · exact (ended : failure.isException = true ∨ breaks).resolve_left ‹_›

omit calm in
private theorem exists_stepsToCompensate
    (stored : ∀ step ∈ steps, step.stepId ∈ inst.stepStates.keys) :
    ∃ found, stepsToCompensate inst steps = .ok found := by
  induction steps with
  | nil => exact ⟨[], rfl⟩
  | cons step rest ih =>
    obtain ⟨others, found⟩ := ih fun other member => stored other (List.mem_cons_of_mem _ member)
    unfold stepsToCompensate
    rw [stepState_of_mem (stored step List.mem_cons_self), found]
    split <;> exact ⟨_, rfl⟩

omit calm in
private theorem concludes_of_mem_rollback {undone : List EffectOutcome} {reason : String} :
    ∀ payload ∈ rollbackPayloads undone steps reason, concludes payload := by
  intro payload listed
  simp only [rollbackPayloads, List.mem_append, List.mem_map, List.mem_singleton] at listed
  rcases listed with (⟨effect, _, rfl⟩ | ⟨step, _, rfl⟩) | rfl <;>
    exact ⟨⟨trivial, id⟩, fun _ => id⟩

theorem runs_rollback {reason : String} (carries : Carries setting sem config outcomes breaks)
    (consistent : Consistent setting world) (holds : Holds setting world inst) : Runs sem breaks
      (fun report next => RollbackEnded world report next ∧ report.result ≠ .idle ∧
        Grown concludes world next) (rollback config setting.definition inst reason) world := by
  have asksForHelp {middle : World} {detail : String} (idle : Idle setting world middle) :
      Runs sem breaks
        (fun report next => RollbackEnded world report next ∧ report.result ≠ .idle ∧
          Grown concludes world next)
        (escalateCompensationFailure setting.definition inst detail) middle := by
    refine (runs_escalate calm (holds.idle idle)).imp ?_
    rintro report next ⟨result, status, grown, logged⟩
    refine ⟨.inr ⟨result, status, ?_⟩, by simp [result], (Grown.of_idle idle).trans grown⟩
    exact logged.after (idle.grown)
  refine ((carries.undoes inst world).knowing calm (keeps_undoSideEffects consistent)).bind ?_
  rintro undone same ⟨rfl, _⟩
  cases undone with
  | error detail => exact asksForHelp (.refl setting same)
  | ok undone =>
    obtain ⟨steps, found⟩ := @exists_stepsToCompensate inst setting.definition.steps.reverse
      fun step member => holds.stored _ (List.mem_map_of_mem (List.mem_reverse.mp member))
    refine runs_lift_bind found ?_
    obtain ⟨sublist, _⟩ := stepsToCompensate_eq_ok found
    refine ((runs_compensateSteps carries fun step member =>
      List.mem_reverse.mp (sublist.subset member)).knowing calm
        (keeps_compensateSteps consistent steps)).bind ?_
    rintro failure compensated ⟨idle, _⟩
    cases failure with
    | some detail => exact asksForHelp idle
    | none =>
      refine Safe.bind_bind (runs_write calm (holds.idle idle)
        (fun payload listed => (concludes_of_mem_rollback payload listed).1.1) none) ?_
      rintro result next ⟨_, wrote⟩
      exact ⟨.inl ⟨rfl, wrote.status⟩, by simp,
        (Grown.of_idle idle).trans (wrote.grown concludes_of_mem_rollback)⟩

omit calm in
private theorem Holds.note (holds : Holds setting world inst) (mark : Mark) :
    Holds setting (world.note mark) inst := by
  cases mark <;> exact holds

theorem runs_applyFailurePolicy {failure : String × String}
    (carries : Carries setting sem config outcomes breaks)
    (consistent : Consistent setting (world.note (.policyApplied failure.1)))
    (holds : Holds setting world inst) : Runs sem breaks (PolicyFollowed setting inst failure world)
      (applyFailurePolicy config setting.definition inst failure) world := by
  refine ⟨trivial, ?_⟩
  intro _ noted told
  obtain rfl : noted = world.note (.policyApplied failure.1) := calm.admitted _ _ _ _ told
  have noted := holds.note (.policyApplied failure.1)
  have escalated {stepId reason recommendation parkReason : String}
      (escalates : failedOnBudget inst failure.1 = true ∨
        setting.definition.onFailure = .escalate) :
      Runs sem breaks (PolicyFollowed setting inst failure world)
        (escalate setting.definition inst stepId reason recommendation parkReason)
        (world.note (.policyApplied failure.1)) := by
    refine (runs_escalate calm noted).imp ?_
    rintro report next ⟨result, _, grown, _⟩
    refine ⟨by simp [result], by simp [result], grown, fun otherwise policy => ?_,
      fun otherwise policy => ?_⟩ <;> simp [otherwise, policy] at escalates
  change Runs sem breaks _ (if failedOnBudget inst failure.1 = true then _ else _) _
  by_cases onBudget : failedOnBudget inst failure.1 = true
  · rw [if_pos onBudget]
    exact escalated (.inl onBudget)
  rw [if_neg onBudget]
  cases policy : setting.definition.onFailure with
  | escalate => exact escalated (.inr policy)
  | rollback =>
    refine (runs_rollback calm carries consistent noted).imp ?_
    rintro report next ⟨ended, busy, grown⟩
    refine ⟨busy, fun paused => ?_, grown, fun _ _ => ended, fun _ other => ?_⟩
    · rcases ended with ⟨result, _⟩ | ⟨result, _⟩ <;> simp [result] at paused
    · simp [policy] at other
  | deadLetter =>
    refine (runs_transition calm noted _ none).bind ?_
    rintro result next ⟨_, wrote⟩
    refine ⟨trivial, ?_⟩
    intro recorded final told
    rcases calm.admitted _ _ _ _ told with ⟨failed, rfl, rfl⟩ | ⟨rfl, rfl⟩
    · exact (calm.granted _ _ _ _ told).resolve_left nofun
    · refine ⟨by simp, by simp, wrote.moved, fun _ other => ?_, fun _ other => ?_⟩ <;>
        simp [policy] at other
  | pause =>
    refine (runs_transition calm noted _ none).bind ?_
    rintro result next ⟨_, wrote⟩
    refine ⟨by simp, fun _ => ⟨by simpa using onBudget, policy⟩, wrote.moved,
      fun _ other => ?_, fun _ _ => ⟨rfl, wrote⟩⟩
    simp [policy] at other

theorem runs_approvalEvents {now : Time} {stepId : String} (stored : Stored setting.definition inst)
    (known : stepId ∈ setting.definition.stepIds) : Runs sem breaks
      (fun events next => Idle setting world next ∧ ∃ payloads, DraftsOf inst payloads events ∧
        (∀ payload ∈ payloads, concludes payload) ∧ ∃ payload ∈ payloads, acts payload)
      (approvalEvents setting.definition inst now stepId) world := by
  obtain ⟨step, member, rfl⟩ := List.mem_map.mp known
  refine runs_lift_bind (stepOf_of_mem member) ?_
  refine (runs_readyEvents calm (stored _ known)).bind ?_
  rintro readied middle ⟨idle, payloads, drafted, all⟩
  refine (runs_newId calm).bind ?_
  intro escalationId drawn drawnIdle
  refine (runs_draftEvent calm inst _).bind ?_
  rintro raised final ⟨idle', more⟩
  refine ⟨(idle.trans drawnIdle).trans idle', _, drafted.append more,
    forall_mem_concat all (concludes_raised _), ?_⟩
  exact ⟨_, List.mem_append_right _ (List.mem_singleton_self _), trivial⟩

theorem runs_escalateForApproval {stepIds : List String} (holds : Holds setting world inst)
    (known : ∀ stepId ∈ stepIds, stepId ∈ setting.definition.stepIds) (nonempty : stepIds ≠ []) :
    Runs sem breaks
      (fun report next => report.result = .waitingApproval ∧ Grown concludes world next ∧
        Logged acts world next) (escalateForApproval setting.definition inst stepIds) world := by
  refine (runs_now calm).bind ?_
  intro now timed timedIdle
  refine (runs_groups fun stepId listed middle =>
    runs_approvalEvents calm holds.stored (known stepId listed)).bind ?_
  rintro raised middle ⟨idle, parts, drafted, each⟩
  refine (runs_draftEvent calm inst _).bind ?_
  rintro parked parkedWorld ⟨parkIdle, parkDrafted⟩
  have wholeIdle := (timedIdle.trans idle).trans parkIdle
  have raisedAll := forall_mem_flatten (each.imp fun _ _ both => both.1)
  have all : ∀ payload ∈ parts.flatten ++ [.instanceStatusChanged .running .waitingApproval
      (some ("approval required: " ++ String.intercalate ", " stepIds))],
      concludes payload :=
    forall_mem_concat raisedAll (concludes_moved _ _ _)
  refine (runs_append calm (holds.idle wholeIdle) (drafted.append parkDrafted)
    (fun payload member => (all payload member).1.1) none).bind ?_
  rintro result next ⟨_, appended⟩
  have wrote := Wrote.of_appended wholeIdle (drafted.append parkDrafted) appended
  refine ⟨rfl, wrote.grown all, ?_⟩
  cases each with
  | nil => exact absurd rfl nonempty
  | cons first _ =>
    obtain ⟨payload, listed, acting⟩ := first.2
    refine wrote.logged (List.mem_append_left _ ?_) acting
    rw [List.flatten_cons]
    exact List.mem_append_left _ listed

section Loop

variable {config : Config} {outcomes : StepOutcome → Prop} {lease : Lease}
  (carries : Carries setting sem config outcomes breaks)

include carries

/-- How the plan is followed, up to the iteration that comes next. -/
private theorem runs_followPlan {plan : Plan} {now : Time} {start : World}
    (atHead : AtHead setting noCare world inst) (runs : inst.status = .running)
    (planned : Engine.plan inst setting.definition now = .ok plan)
    (current : setting.monotoneClock → now ≤ world.clock) (idle : Idle setting start world) :
    Runs sem breaks (Turned setting outcomes inst start)
      (followPlan config setting.definition lease inst plan) world := by
  have sound := soundPlan planned
  have holds := atHead.holds
  have course := course_followPlan config setting.definition lease inst plan
  generalize followPlan config setting.definition lease inst plan = code at course ⊢
  cases course with
  | blocked stepId blocked =>
    refine (runs_blockOnBudget calm holds stepId).map ?_
    rintro report next ⟨result, grown, logged⟩
    exact .followed runs planned idle (.blocked (by simp [blocked]) result grown logged)
  | approvals blocked approvals =>
    refine (runs_escalateForApproval calm holds sound.known_approvals approvals).map ?_
    rintro report next ⟨result, grown, logged⟩
    exact .followed runs planned idle (.approvals blocked approvals result grown logged)
  | failed failed blocked approvals failure =>
    have consistent : Consistent setting (world.note (.policyApplied failed.1)) :=
      { atHead.consistent with }
    refine (runs_applyFailurePolicy calm carries consistent holds).map ?_
    intro report next policyFollowed
    exact .followed runs planned idle (.failed blocked approvals failure policyFollowed)
  | waved clear busy =>
    refine (runs_dispatchWave calm carries atHead runs sound current busy).map ?_
    rintro result next ⟨results, done⟩
    exact .waved runs planned clear.fine busy idle done
  | completed clear nothing settled =>
    refine (runs_complete calm holds).map ?_
    rintro report next ⟨result, grown, logged⟩
    exact .followed runs planned idle
      (.completed clear.affordable clear.approved clear.fine nothing settled result grown logged)
  | parked retryAt clear nothing settled wakeup =>
    refine (runs_transition calm holds none (some retryAt)).bind ?_
    rintro result next ⟨_, wrote⟩
    exact .followed runs planned idle
      (.parked clear.affordable clear.approved clear.fine nothing settled (by simp [wakeup]) rfl
        wrote.moved (wrote.logged List.mem_cons_self trivial))
  | idle clear nothing settled wakeup =>
    refine .followed runs planned idle (.idle ?_ rfl)
    simp [Plan.Acts, clear.affordable, clear.approved, clear.fine, nothing, settled, wakeup]

/-- One iteration of the loop. -/
theorem runs_runTurn (atHead : AtHead setting noCare world inst) : Runs sem breaks
      (fun turn next => TurnEnded setting noCare turn next ∧
        Turned setting outcomes inst world turn next)
      (runTurn config setting.definition lease inst) world := by
  refine Runs.knowing ?_ calm (keeps_runTurn False.elim False.elim atHead)
  have waking {source : WorkflowStatus} (found : inst.status = source)
      (asleep : source = .pending ∨ source = .retrying) :
      Runs sem breaks (Turned setting outcomes inst world)
        (.again <$> transition setting.definition inst source .running) world := by
    refine (runs_transition calm atHead.holds none none).map ?_
    rintro result next ⟨nextHolds, wrote⟩
    have status := @Wrote.status world next [] _ _ _ wrote
    have grown := wrote.moved
    obtain ⟨_, batch, log, payloads⟩ := wrote
    obtain ⟨event, rfl, payload⟩ := List.map_eq_singleton_iff.mp payloads
    refine .woken (found ▸ asleep) (nextHolds.status.symm.trans status) ?_ ?_ grown
    · rw [log, replay_concat, State.after, payload]
      rfl
    · rw [log, replay_concat, State.after, payload]
      rfl
  have resting {result : DriveResult} (asleep : ¬ workable inst.status)
      (busy : result ≠ .idle) :
      Runs sem breaks (Turned setting outcomes inst world)
        (pure (.report { instanceId := inst.instanceId, result := result })) world :=
    .rested asleep busy
  unfold runTurn
  cases status : inst.status with
  | pending => exact waking status (.inl rfl)
  | retrying => exact waking status (.inr rfl)
  | running =>
    refine ((runs_now calm).knowing calm (keeps_now atHead.consistent)).bind ?_
    rintro now timed ⟨⟨idle, same, _⟩, _⟩
    obtain ⟨plan, planned⟩ := exists_plan atHead.holds.stored now
    refine runs_lift_bind planned ?_
    exact runs_followPlan calm carries (atHead.idle idle) status planned (fun _ => same.ge) idle
  | _ => exact resting (by simp [status, workable]) (by simp)

/-- Rule for the loop: an invariant of its head, indexed by the iterations that
are left. -/
theorem runs_runLoop {invariant : Nat → WorkflowInstance → World → Prop}
    {post : DriveReport → World → Prop} (exhausted : ∀ inst world, invariant 0 inst world → breaks)
    (again : ∀ fuel inst world result next, invariant (fuel + 1) inst world →
      AtHead setting noCare world inst → AtHead setting noCare next result →
      Turned setting outcomes inst world (.again result) next → invariant fuel result next)
    (reports : ∀ fuel inst world report next, invariant (fuel + 1) inst world →
      AtHead setting noCare world inst →
      Turned setting outcomes inst world (.report report) next → post report next)
    {fuel : Nat} (atHead : AtHead setting noCare world inst) (initial : invariant fuel inst world) :
    Runs sem breaks post (runLoop config setting.definition lease fuel inst) world := by
  induction fuel generalizing inst world with
  | zero => exact exhausted inst world initial
  | succ fuel ih =>
    refine (runs_runTurn calm carries atHead).bind ?_
    rintro turn next ⟨ended, turned⟩
    cases turn with
    | report report => exact reports fuel inst world report next initial atHead turned
    | again result => exact ih ended (again fuel inst world result next initial atHead ended turned)

end Loop

/-- Rule for drives: recovery, then the loop. -/
theorem safe_drive {error : Exn → World → Prop} (consistent : Consistent setting world)
    (leased : (lease.instanceId, lease.tenantId) = setting.owner)
    (broken : breaks → ∀ failure next, error failure next)
    (lost : ∀ failure next, error failure next → ∀ report, report.result = .leaseLost →
      post report next)
    (loop : ∀ result next, AtHead setting noCare next result → Recovered world next →
      Safe sem (fun _ _ => True) post error
        (runLoop config setting.definition lease maxDriveIterations result) next) :
    Safe sem (fun _ _ => True) post error (drive config lease) world := by
  refine ⟨trivial, ?_⟩
  intro found same told
  obtain ⟨isDefinition, rfl⟩ := calm.admitted _ _ _ _ told
  rcases isDefinition with rfl | rfl
  · rcases calm.granted _ _ _ _ told with granted | mayBreak
    · cases granted
    · exact broken mayBreak _ _
  refine ⟨trivial, ?_⟩
  intro read still told
  obtain ⟨rfl, rfl⟩ := calm.admitted _ _ _ _ told
  obtain ⟨inst, folded, _⟩ := consistent.folds
  have readOk : still.read setting lease.instanceId lease.tenantId (some setting.definition) =
      .ok (some inst) := by
    unfold World.read
    rw [if_pos leased, folded]
  rw [readOk]
  have atHead : AtHead setting noCare still inst :=
    ⟨folded, consistent, ⟨False.elim, False.elim, False.elim⟩⟩
  have driven : Safe sem (fun _ _ => True) post error (recoverInFlight setting.definition inst >>=
      runLoop config setting.definition lease maxDriveIterations) still := by
    have recovers := (runs_recoverInFlight calm folded).knowing calm (keeps_recoverInFlight atHead)
    refine (recovers.mono (fun _ _ _ => trivial) (fun _ _ both => both)
      fun failure next mayBreak => broken mayBreak failure next).bind ?_
    rintro result next ⟨recoveredHead, _, recovered⟩
    exact loop result next recoveredHead recovered
  refine driven.attempt ?_
  intro failure final failed
  split
  · exact lost failure final failed _ rfl
  · exact failed

theorem runs_drive (consistent : Consistent setting world)
    (leased : (lease.instanceId, lease.tenantId) = setting.owner)
    (lost : breaks → ∀ report next, report.result = .leaseLost → post report next)
    (loop : ∀ result next, AtHead setting noCare next result → Recovered world next →
      Runs sem breaks post (runLoop config setting.definition lease maxDriveIterations result)
        next) : Runs sem breaks post (drive config lease) world :=
  safe_drive calm consistent leased (fun mayBreak _ _ => mayBreak)
    (fun _ next mayBreak report => lost mayBreak report next) loop

end Turns

/-! ## Circumstances -/

/-- Circumstances in which nothing disturbs a drive unless it may break, with what
the drive is bound to. -/
theorem calm_of_granted {breaks : Prop}
    (admitted : ∀ world op response next, circumstances world op response next →
      answers setting world op response next)
    (granted : ∀ world op response next, circumstances world op response next →
      Granted setting world op response ∨ breaks) : Calm setting (fun world op response next =>
      circumstances world op response next ∧ Conduct setting noCare world op) breaks := by
  constructor
  · exact fun world op response next told => admitted world op response next told.1
  · exact fun world op response next told => granted world op response next told.1
  · exact fun world op response next told => told.2

/-- A drive keeps to its conduct, so it may be relied on. -/
theorem safe_drive_of_conducted {config : Config} {lease : Lease} {pre : World → Op → Prop}
    {post : DriveReport → World → Prop} {error : Exn → World → Prop}
    (admitted : ∀ world op response next, circumstances world op response next →
      answers setting world op response next) (consistent : Consistent setting world)
    (safe : Safe (fun world op response next => circumstances world op response next ∧
      Conduct setting noCare world op) pre post error (drive config lease) world) :
    Safe circumstances pre post error (drive config lease) world := by
  have keeps : Keeps setting noCare _ (drive config lease) world :=
    keeps_drive False.elim False.elim consistent ⟨False.elim, False.elim, False.elim⟩
  exact (Safe.restrict admitted keeps).relying safe

end AgentForge.Refinement
