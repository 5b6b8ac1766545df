import AgentForge.Guarantees.Interruptions
import AgentForge.Refinement.Alarms

/-!
# Running workflows are not stuck

A drive idles only on a step that waits for a decision nobody is asked for.  A
step waits because an escalation holds it, and whoever closes the escalation
either moves the step or gives the workflow up.  Only an operator who resumes a
workflow that was given up can bring it back with such a step.
-/

namespace AgentForge.Guarantees

open Domain Events Library Store Engine Protocol Refinement
open Program

variable {setting : Setting} {world next : World} {inst : WorkflowInstance} {actor : Actor}

/-! ## Steps that wait for a decision -/

/-- Every step that waits for a decision has an unresolved escalation. -/
def Attended (state : State) : Prop :=
  ∀ stepId, (state.steps stepId).status = .waitingApproval → state.Open stepId

/-- Statuses that only an operator leads out of, or nobody. -/
def givenUp : WorkflowStatus → Bool
  | .failed | .rolledBack => true
  | _ => false

theorem not_givenUp_of_pausable {status : WorkflowStatus}
    (pausable : workflowTransitionAllowed status .paused = true) : givenUp status = false := by
  cases status with
  | failed | rolledBack => cases pausable
  | _ => rfl

/-- What holds of every log unless a workflow was resumed that should not have
been. -/
def Attends (log : List Event) : Prop :=
  givenUp (replay log).status = true ∨ Attended (replay log)

section Events

variable {state after : State} {event : Event} {batch : List Event}

variable (attended : Attended state) {ref : EscalationRef} {stepId : String}

include attended

theorem Attended.of_same (steps : after.steps = state.steps)
    (escalations : after.escalations = state.escalations) : Attended after := by
  intro stepId waiting
  rw [steps] at waiting
  obtain ⟨ref, member, isOpen⟩ := attended stepId waiting
  exact ⟨ref, escalations.symm ▸ member, isOpen⟩

theorem Attended.modifyStep {change : StepView → StepView}
    (moves : (change (state.steps stepId)).status = .waitingApproval → (state.steps stepId).status
      = .waitingApproval) : Attended (state.modifyStep stepId change) := by
  intro other waiting
  apply attended other
  by_cases same : other = stepId
  · subst same
    simp only [State.modifyStep, Function.update_self] at waiting
    exact moves waiting
  · simpa only [State.modifyStep, Function.update_of_ne same] using waiting

theorem Attended.raiseEscalation (escalation : Escalation) :
    Attended (state.raiseEscalation escalation) := by
  intro stepId waiting
  by_cases raised : stepId = escalation.stepId
  · exact ⟨_, List.mem_append_right _ (List.mem_singleton_self _), raised.symm, rfl⟩
  · have before : (state.steps stepId).status = .waitingApproval := by
      unfold State.raiseEscalation at waiting
      split at waiting
      · exact waiting
      · simpa only [State.modifyStep, Function.update_of_ne raised] using waiting
    obtain ⟨ref, member, isOpen⟩ := attended stepId before
    exact ⟨ref, List.mem_append_left _ member, isOpen⟩

/-- What a drive appends leaves no step alone with its question. -/
theorem Attended.after_of_steers (steering : steers event.payload) :
    Attended (state.after event) := by
  have advanced : Attended (state.advance event.payload) := by
    cases payload : event.payload with
    | stepStatusChanged stepId source target reason =>
      rw [payload] at steering
      obtain ⟨rfl, _⟩ := steering
      rw [State.advance]
      apply attended.modifyStep
      simp
    | stepStarted | stepCompleted | stepFailed | stepCompensated | stepRetryScheduled =>
      rw [State.advance]
      apply attended.modifyStep
      simp
    | stepSkipped | workflowRequeued | escalationResolved | escalationTimedOut =>
      rw [payload] at steering
      exact steering.elim
    | escalationRaised escalation => exact attended.raiseEscalation escalation
    | _ => exact attended
  exact advanced

theorem Attended.afterAll_of_steers (steering : ∀ event ∈ batch, steers event.payload) :
    Attended (state.afterAll batch) := by
  induction batch generalizing state with
  | nil => exact attended
  | cons event rest ih =>
    exact ih (attended.after_of_steers (steering event List.mem_cons_self))
      fun other member => steering other (List.mem_cons_of_mem _ member)

/-! ## Closing an escalation -/

omit attended in
/-- A resolution moves the step and lets the workflow go on, or gives the workflow
up. -/
theorem transitionPayloads_cases (inst : WorkflowInstance) (stepId : String)
    (resolution : Resolution) (actor : String) :
    (∃ source target reason why, target ≠ .waitingApproval ∧
        transitionPayloads inst stepId resolution actor =
          [.stepStatusChanged stepId source target reason,
            .instanceStatusChanged inst.status .running why]) ∨
      ∃ target why, givenUp target = true ∧ transitionPayloads inst stepId resolution actor =
          [.instanceStatusChanged inst.status target why] := by
  unfold transitionPayloads
  dsimp only
  split
  · next state _ =>
    cases resolution with
    | approve | modify =>
      exact .inl ⟨_, _, _, _, by cases state.output.isSome <;> simp, rfl⟩
    | skip => exact .inl ⟨_, _, _, _, by simp, rfl⟩
    | abort => exact .inr ⟨_, _, rfl, rfl⟩
  · cases resolution with
    | approve | modify | skip | abort => exact .inr ⟨_, _, rfl, rfl⟩

/-- Closing an escalation leaves at most its step alone. -/
theorem Attended.closed (ids : (state.escalations.map EscalationRef.escalationId).Nodup)
    (member : ref ∈ state.escalations) (closed : Closed state ref.escalationId after)
    (elsewhere : stepId ≠ ref.stepId) (waiting : (after.steps stepId).status = .waitingApproval) :
    after.Open stepId := by
  rw [closed.steps] at waiting
  obtain ⟨other, otherMember, ofStep, unresolved⟩ := attended stepId waiting
  have distinct : other.escalationId ≠ ref.escalationId := by
    intro same
    exact elsewhere (by rw [← ofStep, List.inj_on_of_nodup_map ids otherMember member same])
  refine ⟨other, ?_, ofStep, unresolved⟩
  rw [closed.escalations]
  exact List.mem_map.mpr ⟨other, otherMember, if_neg distinct⟩

/-- Whoever closes an escalation gives the workflow up or leaves no step alone. -/
theorem attended_of_closing {resolution : Resolution} {closing : Payload} {adjust : List Payload}
    {actor : String} {rules : Rules} (inv : Invariant rules state)
    (member : ref ∈ state.escalations)
    (closes : Closes ref.escalationId ref.stepId resolution closing)
    (adjusted : ∀ payload ∈ adjust, adjusts payload = true)
    (payloads : batch.map Event.payload = closing :: (adjust ++ transitionPayloads inst ref.stepId
      resolution actor)) :
    givenUp (state.afterAll batch).status = true ∨ Attended (state.afterAll batch) := by
  obtain ⟨close, rest, rfl, rfl, restPayloads⟩ := List.map_eq_cons_iff.mp payloads
  obtain ⟨adjustments, moves, rfl, adjustPayloads, movePayloads⟩ :=
    List.map_eq_append_iff.mp restPayloads
  have adjusting : ∀ event ∈ adjustments, adjusts event.payload = true :=
    fun event listed => adjusted _ (adjustPayloads ▸ List.mem_map_of_mem listed)
  have closed : Closed state ref.escalationId ((state.after close).afterAll adjustments) :=
    (@Closed.adjust rules _ _ _ _ (.of_closes closes) adjusting).2
  change givenUp ((state.after close).afterAll (adjustments ++ moves)).status = true ∨
    Attended ((state.after close).afterAll (adjustments ++ moves))
  rw [State.afterAll_append]
  generalize (state.after close).afterAll adjustments = middle at closed ⊢
  rcases transitionPayloads_cases inst ref.stepId resolution actor with
    ⟨source, target, reason, why, moved, shape⟩ | ⟨target, why, isGivenUp, shape⟩
  · right
    rw [shape] at movePayloads
    obtain ⟨moving, others, rfl, movingPayload, otherPayloads⟩ :=
      List.map_eq_cons_iff.mp movePayloads
    obtain ⟨going, rfl, goingPayload⟩ := List.map_eq_singleton_iff.mp otherPayloads
    have ended : (middle.afterAll [moving, going]).steps =
          (middle.modifyStep ref.stepId fun step => { step with status := target }).steps ∧
        (middle.afterAll [moving, going]).escalations = middle.escalations := by
      change ((middle.after moving).after going).steps = _ ∧
        ((middle.after moving).after going).escalations = _
      unfold State.after
      rw [goingPayload, movingPayload]
      exact ⟨rfl, rfl⟩
    intro stepId waiting
    rw [ended.1] at waiting
    by_cases same : stepId = ref.stepId
    · subst same
      simp only [State.modifyStep, Function.update_self] at waiting
      exact absurd waiting moved
    · simp only [State.modifyStep, Function.update_of_ne same] at waiting
      obtain ⟨other, listed, isOpen⟩ := attended.closed inv.ids member closed same waiting
      exact ⟨other, ended.2.symm ▸ listed, isOpen⟩
  · left
    rw [shape] at movePayloads
    obtain ⟨leaving, rfl, leavingPayload⟩ := List.map_eq_singleton_iff.mp movePayloads
    change givenUp (middle.advance leaving.payload).status = true
    rw [leavingPayload]
    exact isGivenUp

end Events

/-! ## Runs -/

/-- Operators resume a workflow only if somebody is asked about every step that
waits. -/
def ResumesAttended (world : World) : Actor → Prop
  | .resume _ => Attended (replay world.log)
  | _ => True

/-- What an actor keeps up while it is at work. -/
private def Upkeep (log : List Event) : Actor → Prop
  | .resume _ => Attended (replay log)
  | _ => Attends log

private theorem Upkeep.attends {log : List Event} (upkeep : Upkeep log actor) : Attends log := by
  cases actor with
  | resume => exact .inr upkeep
  | _ => exact upkeep

private theorem ref_of_closing {rules : Rules} {state : State} {time : Time}
    {escalationId stepId : String} {resolution : Resolution} {payload : Payload}
    (closes : Closes escalationId stepId resolution payload)
    (legal : Legal rules state time payload) :
    ∃ ref ∈ state.escalations, ref.escalationId = escalationId ∧ ref.stepId = stepId := by
  cases closes with
  | resolved =>
    cases legal with
    | resolved member _ _ => exact ⟨_, member, rfl, rfl⟩
  | timedOut =>
    cases legal with
    | timedOut member _ _ => exact ⟨_, member, rfl, rfl⟩

private theorem Upkeep.append {batch : List Event} (noRequeue : setting.NoRequeue)
    (admitted : setting.admits actor) (consistent : Consistent setting world)
    (upkeep : Upkeep world.log actor) (status : (replay world.log).status = inst.status)
    (legal : LegalBatch (rulesOf setting) (replay world.log) batch)
    (appends : Appends actor inst (batch.map Event.payload)) :
    Upkeep (world.log ++ batch) actor := by
  have inv := consistent.run.invariant
  have attends := upkeep.attends
  unfold Upkeep Attends
  rw [replay_append]
  have moving {target : WorkflowStatus} (moves : Moves target inst (batch.map Event.payload)) :
      ((replay world.log).afterAll batch).status = target ∧
        (Attended (replay world.log) → Attended ((replay world.log).afterAll batch)) := by
    obtain ⟨reason, single⟩ := moves.single
    obtain ⟨event, rfl, payload⟩ := List.map_eq_singleton_iff.mp single
    have advanced : (replay world.log).afterAll [event] =
        { replay world.log with log := (replay world.log).log ++ [event], status := target } := by
      change (replay world.log).after event = _
      rw [State.after, payload]
      rfl
    rw [advanced]
    exact ⟨rfl, fun attended => attended.of_same rfl rfl⟩
  have closing {escalationId stepId actor : String} {resolution : Resolution} {closing : Payload}
      {adjust : List Payload} (waits : inst.status = .waitingApproval)
      (closes : Closes escalationId stepId resolution closing)
      (adjusted : ∀ payload ∈ adjust, adjusts payload = true)
      (payloads : batch.map Event.payload =
        closing :: (adjust ++ transitionPayloads inst stepId resolution actor)) :
      givenUp ((replay world.log).afterAll batch).status = true ∨
        Attended ((replay world.log).afterAll batch) := by
    have attended : Attended (replay world.log) := by
      refine attends.resolve_left ?_
      rw [status, waits]
      decide
    obtain ⟨close, rest, rfl, rfl, _⟩ := List.map_eq_cons_iff.mp payloads
    obtain ⟨ref, member, rfl, rfl⟩ := ref_of_closing closes legal.1
    exact attended_of_closing attended inv member closes adjusted payloads
  cases actor with
  | drive config lease =>
    obtain ⟨steering, workable | recovering⟩ := appends
    · have attended : Attended (replay world.log) := by
        refine attends.resolve_left ?_
        rw [status]
        cases found : inst.status <;> simp [found, Engine.workable, givenUp] at workable ⊢
      exact .inr (attended.afterAll_of_steers fun event listed =>
        steering _ (List.mem_map_of_mem listed))
    · have sameStatus : ((replay world.log).afterAll batch).status = (replay world.log).status :=
        status_afterAll_of_leavesStatus fun event listed =>
          leavesStatus_of_recovers (recovering _ (List.mem_map_of_mem listed))
      rw [sameStatus]
      exact attends.imp_right fun attended => attended.afterAll_of_steers fun event listed =>
        steering _ (List.mem_map_of_mem listed)
  | resume operator => exact (moving appends).2 upkeep
  | pause operator =>
    refine .inr ((moving appends).2 (attends.resolve_left ?_))
    rw [status, not_givenUp_of_pausable appends.allowed]
    simp
  | abort operator =>
    rw [(moving appends).1]
    exact .inl rfl
  | resolve request =>
    obtain ⟨waits, row, payloads⟩ := appends
    refine closing waits .resolved ?_ (payloads.trans (List.append_assoc _ _ _))
    cases request.newBudgetUsd <;> simp [adjusts]
  | expireDue now limit =>
    obtain ⟨waits, row, payloads⟩ := appends
    exact @closing _ _ _ _ _ [] waits (.timedOut (expiryAction_ne_modify row.autoAction)) (by simp)
      payloads
  | requeue dlqId requeuedBy => exact absurd admitted (noRequeue dlqId requeuedBy)

private theorem Upkeep.answered {op : Op} {response : op.Result} {grasp : Hand}
    (noRequeue : setting.NoRequeue) (admitted : setting.admits actor)
    (upkeep : Upkeep world.log actor) (atTip : AtTip world.log grasp)
    (based : Based actor grasp op) (conduct : Conduct setting noCare world op)
    (answered : answers setting world op response next) : Upkeep next.log actor := by
  cases logChange_of_answers answered with
  | same sameLog => exact sameLog.symm ▸ upkeep
  | committed committed =>
    obtain ⟨_, current, _, _, _, rfl⟩ := commit_eq_ok committed
    obtain ⟨inst, held, _, appends⟩ := based.grounded
    rw [← payload_resequence] at appends
    exact upkeep.append noRequeue admitted conduct.1 (status_of_fold (atTip inst held)).symm
      (conduct.2 current).sound.legal appends

/-- In every run whose resumes are attended, so is every workflow that is not given
up. -/
theorem attends_of_reachable {ends : World → Code (Option DriveReport) → Prop}
    (noRequeue : setting.NoRequeue)
    (reachable : ReachableIf setting ResumesAttended ends world) : Attends world.log := by
  induction reachable with
  | fresh isFresh =>
    obtain ⟨event, clock, issued, _, _, genesis, rfl⟩ := isFresh
    obtain ⟨budgetLimitUsd, initial⟩ := replay_genesis genesis
    right
    intro stepId waiting
    rw [initial] at waiting
    cases waiting
  | @act world next residual actor before admitted resumes steps _ ih =>
    have clear := clear_of_reachable (leavesTidy_noCare setting ends) False.elim False.elim
      before.reachable
    have conducted := (based_program actor world).and
      (keeps_program admitted False.elim False.elim clear)
    have start : Upkeep world.log actor := by
      cases actor with
      | resume => exact resumes
      | _ => exact ih
    have kept (current : World) (op : Op) (response : op.Result) (later : World)
        (upkeep : Upkeep current.log actor)
        (bound : (∃ grasp, AtTip current.log grasp ∧ Based actor grasp op) ∧
          Conduct setting noCare current op)
        (answered : answers setting current op response later) : Upkeep later.log actor := by
      obtain ⟨⟨grasp, atTip, based⟩, conduct⟩ := bound
      exact upkeep.answered noRequeue admitted atTip based conduct answered
    exact (conducted.preserves kept steps start).attends

/-! ## Workflows that nothing holds -/

/-- Nothing waits for a decision. -/
structure Unasked (log : List Event) : Prop where
  waiting : ∀ stepId, ((replay log).steps stepId).status ≠ .waitingApproval
  resolved : ∀ ref ∈ (replay log).escalations, ref.resolved = true

theorem Unasked.of_attended {log : List Event} (attended : Attended (replay log))
    (resolved : ∀ ref ∈ (replay log).escalations, ref.resolved = true) : Unasked log := by
  refine ⟨fun stepId waiting => ?_, resolved⟩
  obtain ⟨ref, member, _, unresolved⟩ := attended stepId waiting
  rw [resolved ref member] at unresolved
  cases unresolved

private theorem Unasked.unheld (unasked : Unasked world.log) (still : Still world.log)
    (atHead : AtHead setting noCare world inst) (running : inst.status = .running) :
    Unheld setting.definition inst := by
  have holds := atHead.holds
  have statusOf (stepId : String) :
      ((replay world.log).steps stepId).status = (inst.stepOr stepId).status := by
    rw [holds.steps]
    rfl
  constructor
  case counted => exact countSteps_of_still holds still
  case running => exact fun stepId _ => statusOf stepId ▸ still stepId
  case waiting => exact fun stepId _ => statusOf stepId ▸ unasked.waiting stepId
  case compensated =>
    intro stepId _ compensated
    have rolledBack := atHead.consistent.rest.compensated stepId
      ((statusOf stepId).trans compensated)
    rw [holds.status, running] at rolledBack
    cases rolledBack
  case escalations =>
    unfold openEscalations
    rw [List.map_eq_nil_iff, List.filter_eq_nil_iff]
    intro ref member
    have known : ref ∈ (replay world.log).escalations := by
      rw [← holds.view]
      exact member
    simp [unasked.resolved ref known]

private theorem Recovered.unasked (recovered : Recovered world next) (unasked : Unasked world.log) :
    Unasked next.log := by
  constructor
  · intro stepId
    rw [recovered.steps]
    split
    · simp
    · exact unasked.waiting stepId
  · rw [recovered.escalations]
    exact unasked.resolved

/-- A wave after which the workflow still runs asks for nothing. -/
private theorem WaveDone.unasked {outcomes : StepOutcome → Prop} {dispatch : List (String × Nat)}
    {results : List AttemptResult} (done : WaveDone setting outcomes dispatch results world next)
    (running : (replay next.log).status ≠ .waitingApproval) (unasked : Unasked world.log) :
    Unasked next.log := by
  have none : reviewsOf results = [] := by
    by_contra asked
    exact running (done.settled.parks asked)
  constructor
  · intro stepId
    by_cases listed : stepId ∈ results.map AttemptResult.stepId
    · obtain ⟨result, member, rfl⟩ := List.mem_map.mp listed
      cases outcome : result.outcome with
      | failure failure => simp [(done.settled.failed result member failure outcome).1]
      | success success =>
        have unreviewed : success.review = .none := by
          have noReview := List.filterMap_eq_nil_iff.mp none result member
          simpa [outcome, StepOutcome.review] using noReview
        simp [done.settled.completed result member success outcome unreviewed]
    · rw [done.settled.untouched stepId listed]
      exact unasked.waiting stepId
  · rw [(done.settled.runs none).2]
    exact unasked.resolved

/-! ## Drives that do not idle -/

private theorem safe_busy {config : Config} {lease : Lease} (consistent : Consistent setting world)
    (leased : (lease.instanceId, lease.tenantId) = setting.owner) (unasked : Unasked world.log) :
    Safe (undisturbed setting) (fun _ _ => True) (fun report _ => report.result ≠ .idle)
      (fun _ _ => True) (drive config lease) world := by
  apply safe_drive_of_conducted (fun _ _ _ _ told => told.1) consistent
  have calm := @calm_of_granted setting (undisturbed setting) True
    (fun _ _ _ _ told => told.1) fun _ _ _ _ told => .inl told.2
  apply runs_drive calm consistent leased
  · intro _ report _ lost
    simp [lost]
  · intro result recoveredWorld atHead recovered
    refine @runs_runLoop _ _ _ _ _ calm config (fun _ => True) lease (.of_breaks config trivial)
      (fun _ inst current => Still current.log ∧ (workable inst.status → Unasked current.log)) _
      (fun _ _ _ => trivial) ?_ ?_ _ atHead
      ⟨recovered.not_running, fun _ => Recovered.unasked recovered unasked⟩
    · rintro _ inst current result next ⟨still, unasked⟩ _ nextHead turned
      refine ⟨turned.still still, fun works => ?_⟩
      cases turned with
      | woken asleep _ sameSteps sameEscalations _ =>
        have before := unasked (by rcases asleep with found | found <;> rw [found] <;> trivial)
        refine ⟨fun stepId => ?_, ?_⟩
        · rw [sameSteps]
          exact before.waiting stepId
        · rw [sameEscalations]
          exact before.resolved
      | waved running _ _ _ idle done =>
        refine WaveDone.unasked done ?_ (idle.log.symm ▸ unasked (running.symm ▸ trivial))
        intro parked
        rw [nextHead.holds.status] at parked
        rw [parked] at works
        exact works
    · rintro _ inst current report next ⟨still, unasked⟩ atHead turned
      cases turned with
      | rested _ busy => exact busy
      | followed running planned idle followed =>
        have acting := plan_acts atHead.holds.stored
          (Unasked.unheld (unasked (running.symm ▸ trivial)) still atHead running) planned
        cases followed with
        | blocked _ result | approvals _ _ result | completed _ _ _ _ _ result
        | parked _ _ _ _ _ _ result => simp [result]
        | failed _ _ _ policy => exact policy.busy
        | idle resting => exact absurd acting resting

/-- A drive has done something about the workflow: it has started a step, raised an
escalation, parked the workflow until a retry, completed it, or applied the budget
or the failure policy. -/
def Acted (world next : World) : Prop :=
  Logged acts world next ∨ world.policies.length < next.policies.length

private theorem Acted.answered {op : Op} {response : op.Result} {final : World}
    (acted : Acted world next) (answered : answers setting next op response final) :
    Acted world final := by
  obtain ⟨batch, grown⟩ := log_of_answers answered
  rcases acted with ⟨more, log, acting⟩ | applied
  · refine .inl ⟨more ++ batch, by rw [grown, log, List.append_assoc], ?_⟩
    obtain ⟨event, member, isActing⟩ := acting
    exact ⟨event, List.mem_append_left _ member, isActing⟩
  · right
    cases change_of_answers answered with
    | none _ _ samePolicies => rwa [samePolicies]
    | committed committed =>
      obtain ⟨_, _, _, _, _, rfl⟩ := commit_eq_ok committed
      exact applied
    | called | recorded | resolved => exact applied
    | @noted mark =>
      cases mark with
      | attemptFinished => exact applied
      | policyApplied =>
        rw [World.note, List.length_append]
        exact Nat.lt_add_right _ applied

private theorem Acted.after {final : World} {good : Payload → Prop}
    (acted : Acted next final) (grown : Grown good world next) : Acted world final := by
  rcases acted with logged | applied
  · exact .inl (logged.after grown)
  · right
    rwa [← grown.1]

section Acting

variable {sem : Semantics World Op Op.Result} {config : Config} {lease : Lease}
  (calm : Calm setting sem False) {plan : Plan}

include calm

/-- Code in which something is done before anything can break. -/
private abbrev Acting {α : Type} (sem : Semantics World Op Op.Result) (world : World)
    (code : Code α) (current : World) : Prop :=
  Safe sem (fun _ _ => True) (fun _ next => Acted world next) (fun _ next => Acted world next)
    code current

private theorem acting_of_acted {α : Type} (acted : Acted world next) (code : Code α) :
    Acting sem world code next :=
  safe_of_kept (fun _ _ => trivial)
    (fun _ _ _ _ acted told => acted.answered (calm.admitted _ _ _ _ told)) code acted

omit calm in
private theorem acting_of_runs {α : Type} {post : α → World → Prop} {code : Code α}
    (runs : Runs sem False post code next)
    (acts : ∀ value final, post value final → Acted world final) : Acting sem world code next :=
  runs.mono (fun _ _ _ => trivial) acts fun _ _ broken => broken.elim

variable (atHead : AtHead setting noCare world inst)

include atHead

/-- A wave begins by starting its steps. -/
private theorem acting_dispatchWave {now : Time} (running : inst.status = .running)
    (sound : SoundPlan inst setting.definition now plan)
    (current : setting.monotoneClock → now ≤ world.clock) (nonempty : plan.dispatch ≠ []) :
    Acting sem world (dispatchWave config setting.definition lease inst plan.dispatch) world := by
  have starting : Acting sem world
      (do
        let started ← Program.traverse (startEvents inst lease.workerId) plan.dispatch
        append setting.definition inst started.flatten)
      world := by
    refine acting_of_runs ((runs_startWave calm atHead.holds sound.known_dispatch).knowing calm
      (keeps_startWave atHead running sound current nonempty)) ?_
    rintro started next ⟨⟨_, startedWave⟩, _⟩
    obtain ⟨batch, log, launched⟩ := startedWave.launched
    obtain ⟨candidate, listed⟩ := List.exists_mem_of_ne_nil _ nonempty
    obtain ⟨event, member, isStart⟩ := launched candidate listed
    refine .inl ⟨batch, log, event, member, ?_⟩
    cases payload : event.payload with
    | stepStarted => trivial
    | _ =>
      rw [payload] at isStart
      exact isStart.elim
  exact starting.bind_bind fun _ _ acted => acting_of_acted calm acted _

private theorem acting_followPlan {now : Time} (running : inst.status = .running)
    (planned : Engine.plan inst setting.definition now = .ok plan)
    (current : setting.monotoneClock → now ≤ world.clock) (acting : plan.Acts) :
    Acting sem world (followPlan config setting.definition lease inst plan) world := by
  have sound := soundPlan planned
  have holds := atHead.holds
  have course := course_followPlan config setting.definition lease inst plan
  generalize followPlan config setting.definition lease inst plan = code at course ⊢
  cases course with
  | blocked stepId =>
    refine acting_of_runs ((runs_blockOnBudget calm holds stepId).map ?_) fun _ _ acted => acted
    exact fun _ _ done => .inl done.2.2
  | approvals _ approvals =>
    refine acting_of_runs ((runs_escalateForApproval calm holds sound.known_approvals
      approvals).map ?_) fun _ _ acted => acted
    exact fun _ _ done => .inl done.2.2
  | failed failed =>
    have applying : Acting sem world
        (applyFailurePolicy config setting.definition inst failed) world := by
      refine ⟨trivial, ?_⟩
      intro _ noted told
      obtain rfl : noted = world.note (.policyApplied failed.1) := calm.admitted _ _ _ _ told
      apply acting_of_acted calm
      right
      simp [World.note]
    exact applying.map fun _ _ acted => acted
  | waved _ busy =>
    refine Safe.map ?_ fun _ _ acted => acted
    exact acting_dispatchWave calm atHead running sound current busy
  | completed =>
    refine acting_of_runs ((runs_complete calm holds).map ?_) fun _ _ acted => acted
    exact fun _ _ done => .inl done.2.2
  | parked retryAt =>
    refine acting_of_runs ((runs_transition calm holds none (some retryAt)).bind ?_)
      fun _ _ acted => acted
    exact fun _ _ done => .inl (done.2.logged List.mem_cons_self trivial)
  | idle clear nothing settled wakeup =>
    simp [Plan.Acts, clear.affordable, clear.approved, clear.fine, nothing, settled,
      wakeup] at acting

private theorem acting_runLoop {fuel : Nat} (running : inst.status = .running)
    (unheld : Unheld setting.definition inst) :
    Acting sem world (runLoop config setting.definition lease (fuel + 1) inst) world := by
  have turning : Acting sem world (runTurn config setting.definition lease inst) world := by
    unfold runTurn
    rw [running]
    refine ⟨trivial, fun now timed told => ?_⟩
    obtain ⟨later, rfl⟩ := calm.admitted _ _ _ _ told
    obtain ⟨plan, planned⟩ := exists_plan atHead.holds.stored now
    change Acting sem world (lift (Engine.plan inst setting.definition now) >>= _) _
    rw [planned]
    have idle : Idle setting world { world with clock := now } :=
      ⟨now, world.issued, rfl, later, fun _ member => member⟩
    have following : Acting sem _ (followPlan config setting.definition lease inst plan) _ :=
      acting_followPlan calm (atHead.idle idle) running planned (fun _ => le_rfl)
        (plan_acts atHead.holds.stored unheld planned)
    exact following.mono (fun _ _ _ => trivial) (fun _ _ acted => acted.after idle.grown)
      fun _ _ acted => acted.after idle.grown
  exact turning.bind fun turn next acted => acting_of_acted calm acted _

end Acting

private theorem safe_acting {config : Config} {lease : Lease}
    (consistent : Consistent setting world)
    (leased : (lease.instanceId, lease.tenantId) = setting.owner)
    (running : (replay world.log).status = .running) (unasked : Unasked world.log) :
    Acting (undisturbed setting) world (drive config lease) world := by
  apply safe_drive_of_conducted (fun _ _ _ _ told => told.1) consistent
  have calm := @calm_of_granted setting (undisturbed setting) False
    (fun _ _ _ _ told => told.1) fun _ _ _ _ told => .inl told.2
  apply safe_drive calm consistent leased
  · exact False.elim
  · exact fun _ _ acted _ _ => acted
  · intro result recoveredWorld atHead recovered
    have runs : result.status = .running := by
      rw [← atHead.holds.status, recovered.status, running]
    have unheld := (Recovered.unasked recovered unasked).unheld recovered.not_running atHead runs
    have looping : Acting _ recoveredWorld
        (runLoop config setting.definition lease maxDriveIterations result) recoveredWorld :=
      acting_runLoop calm atHead runs unheld
    exact looping.mono (fun _ _ _ => trivial) (fun _ _ acted => acted.after recovered.grown)
      fun _ _ acted => acted.after recovered.grown

/-- **Never stuck.**  In every run in which operators resume a workflow only if
somebody is asked about each of its waiting steps: the next drive of a running
workflow without unresolved escalations, undisturbed, does something about it, and
if it returns it does not report that it was idle. -/
theorem running_not_stuck {ends : World → Code (Option DriveReport) → Prop} {config : Config}
    {lease : Lease} (noRequeue : setting.NoRequeue)
    (reachable : ReachableIf setting ResumesAttended ends world)
    (folded : fold world.log (some setting.definition) = .ok inst)
    (running : inst.status = .running) (resolved : ∀ ref ∈ inst.escalations, ref.resolved = true)
    (leased : (lease.instanceId, lease.tenantId) = setting.owner) :
    (∃ final outcome, Steps (undisturbed setting) world (drive config lease) final
      (ended outcome)) ∧
    ∀ final outcome, Steps (undisturbed setting) world (drive config lease) final
      (ended outcome) →
      Acted world final ∧ ∀ report, outcome = .ok report → report.result ≠ .idle := by
  refine ⟨exists_undisturbed_end setting _ world, ?_⟩
  have consistent := consistent_of_reachable reachable.reachable
  have runs : (replay world.log).status = .running := (status_of_fold folded).symm.trans running
  have attended : Attended (replay world.log) := by
    refine (attends_of_reachable noRequeue reachable).resolve_left ?_
    rw [runs]
    decide
  have unasked : Unasked world.log := by
    refine .of_attended attended ?_
    rw [← view_of_fold folded]
    exact resolved
  intro final outcome steps
  have acted := (safe_acting consistent leased runs unasked).steps steps
  have busy := (safe_busy consistent leased unasked).steps steps
  cases outcome with
  | error failure => exact ⟨acted, nofun⟩
  | ok report =>
      refine ⟨acted, ?_⟩
      rintro _ ⟨⟩
      exact busy

/-! ## A release that is called off -/

/-- A worker that publishes whatever is asked of it. -/
def publishingConfig : Config where
  registry := fun _ => some fun _ => .done { output := Dict.empty }
  digestMessages := fun _ _ => ""

def releaseLease : Lease where
  instanceId := "instance"
  tenantId := "tenant"
  workflowId := "release"
  workflowVersion := "1.0.0"
  workerId := "worker"

/-- The release has been approved, and then an operator has paused it. -/
@[irreducible]
def releasePaused : World :=
  executeAll releaseSetting {}
    [(50, releaseDrive), (50, releaseApproval), (50, .pause "operator")]
    (.opened releaseSetting none)

/-- The operator has resumed it. -/
@[irreducible]
def releaseContinued : World :=
  executeAll releaseSetting {} [(50, .resume "operator")] releasePaused

theorem running_not_stuck_releaseContinued :
    releasePaused.status releaseSetting = some .paused ∧
      ∃ final outcome, Steps (undisturbed releaseSetting) releaseContinued
        (drive publishingConfig releaseLease) final (ended outcome) ∧
        Acted releaseContinued final := by
  have isPaused : releasePaused.status releaseSetting = some .paused := by decide +kernel
  refine ⟨isPaused, ?_⟩
  have paused : ReachableIf releaseSetting ResumesAttended
      (fun _ residual => Finished residual) releasePaused := by
    unfold releasePaused
    exact (ReachableIf.fresh ⟨_, 0, [], rfl, rfl, rfl, rfl⟩).executeAll
      ⟨rfl, trivial, by decide +kernel, rfl, trivial, by decide +kernel, rfl, trivial,
        by decide +kernel, trivial⟩
  have attended : Attended (replay releasePaused.log) := by
    refine (attends_of_reachable (noRequeue_withoutRequeue releaseWorkflow) paused).resolve_left ?_
    obtain ⟨inst, folded, status⟩ := exists_fold_of_status isPaused
    rw [← status_of_fold folded, status]
    decide
  have reachable : ReachableIf releaseSetting ResumesAttended
      (fun _ residual => Finished residual) releaseContinued := by
    unfold releaseContinued
    exact paused.executeAll ⟨rfl, attended, by decide +kernel, trivial⟩
  obtain ⟨inst, folded, facts⟩ := exists_ok_of_map (by
    decide +kernel : (fold releaseContinued.log (some releaseWorkflow)).toOption.map (fun inst =>
      (inst.status, inst.escalations.all EscalationRef.resolved)) = some (.running, true))
  obtain ⟨running, resolved⟩ := Prod.ext_iff.mp facts
  obtain ⟨⟨final, outcome, steps⟩, all⟩ := running_not_stuck
    (noRequeue_withoutRequeue releaseWorkflow) reachable folded running
    (List.all_eq_true.mp resolved)
    (rfl : (releaseLease.instanceId, releaseLease.tenantId) = releaseSetting.owner)
  exact ⟨final, outcome, steps, (all final outcome steps).1⟩

/-- The reviewer has called the release off, and the operator resumes it. -/
@[irreducible]
def releaseResumed : World :=
  executeAll releaseSetting {}
    [(50, releaseDrive),
      (50, .resolve
        { escalationId := heldWorld.escalationIds.headD "", tenantId := "tenant",
          resolution := .abort, resolvedBy := "reviewer" }),
      (50, .resume "operator")]
    (.opened releaseSetting none)

/-- The drive after the resume. -/
@[irreducible]
def releaseIdled : Except Exn DriveReport × World :=
  perform releaseSetting {} (drive publishingConfig releaseLease) releaseResumed

/-- The workflow runs and no escalation is unresolved, but the next drive finds
nothing to do. -/
theorem resumed_release_idles :
    releaseSetting.NoRequeue ∧
      Reachable releaseSetting (fun _ residual => Finished residual) releaseResumed ∧
      ∃ inst final report, fold releaseResumed.log (some releaseSetting.definition) = .ok inst ∧
        inst.status = .running ∧ (∀ ref ∈ inst.escalations, ref.resolved = true) ∧
        Steps (undisturbed releaseSetting) releaseResumed (drive publishingConfig releaseLease)
          final (.done report) ∧
        report.result = .idle ∧ ¬ Acted releaseResumed final := by
  refine ⟨noRequeue_withoutRequeue releaseWorkflow, ?_, ?_⟩
  · unfold releaseResumed
    exact (reachable_opened releaseSetting _ none).executeAll
      ⟨rfl, by decide +kernel, rfl, by decide +kernel, rfl, by decide +kernel, trivial⟩
  obtain ⟨inst, folded, facts⟩ := exists_ok_of_map (by
    decide +kernel : (fold releaseResumed.log (some releaseWorkflow)).toOption.map (fun inst =>
      (inst.status, inst.escalations.all EscalationRef.resolved)) = some (.running, true))
  obtain ⟨running, resolved⟩ := Prod.ext_iff.mp facts
  obtain ⟨report, isReport, isIdle⟩ := exists_ok_of_map (by
    decide +kernel : releaseIdled.1.toOption.map DriveReport.result = some .idle)
  have lengths : releaseIdled.2.log.length = releaseResumed.log.length ∧
      releaseIdled.2.policies.length = releaseResumed.policies.length := by decide +kernel
  have steps := steps_perform (undisturbed_answer releaseSetting {})
    (drive publishingConfig releaseLease) releaseResumed
  unfold releaseIdled at isReport lengths
  rw [isReport] at steps
  refine ⟨inst, _, report, folded, running, List.all_eq_true.mp resolved, steps, isIdle, ?_⟩
  rintro (⟨more, grown, event, member, _⟩ | applied)
  · have longer := congrArg List.length grown
    rw [lengths.1, List.length_append] at longer
    have empty : more = [] := List.eq_nil_of_length_eq_zero (by omega)
    rw [empty] at member
    cases member
  · exact absurd lengths.2 applied.ne'

end AgentForge.Guarantees
