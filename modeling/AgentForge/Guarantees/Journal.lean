import AgentForge.Engine.Execution
import AgentForge.Refinement.Reach
import Mathlib.Data.List.Induction

/-!
# Laws of the journal

What the log of every reachable world satisfies, event by event: steps start
only when they may, only after they were approved, complete at most once, and
nothing follows a final status.  No writer ever appends what the fold rejects.
-/

namespace AgentForge.Guarantees

open Domain Events Library Engine Protocol Refinement

variable {setting : Setting} {world : World} {ends : World → Code (Option DriveReport) → Prop}
  {before after : List Event} {inst : WorkflowInstance} {log : List Event} {stepId : String}
  {version : Nat}

/-! ## Moments of a log -/

/-- The moment at which an event was added to a log: the instance before and
after it. -/
structure Moment (setting : Setting) (before : List Event) (event : Event)
    (inst next : WorkflowInstance) : Prop where
  folds : fold before (some setting.definition) = .ok inst
  foldsNext : fold (before ++ [event]) (some setting.definition) = .ok next
  run : Run (rulesOf setting) before
  legal : Legal (rulesOf setting) (replay before) event.occurredAt event.payload

namespace Moment

variable {before : List Event} {event : Event} {inst next : WorkflowInstance}
  (moment : Moment setting before event inst next)

include moment

theorem status : (replay before).status = inst.status := by
  rw [← view_of_fold moment.folds]
  rfl

theorem steps (stepId : String) : (replay before).steps stepId = .of (inst.stepOr stepId) := by
  rw [← view_of_fold moment.folds]
  rfl

theorem remaining : (replay before).remaining = inst.remainingBudgetUsd := by
  rw [← view_of_fold moment.folds]
  rfl

end Moment

/-- Every event of a reachable log but the first has its moment. -/
theorem moment_of_split (reachable : Reachable setting ends world) {event : Event}
    (split : world.log = before ++ event :: after) (later : event.isGenesis = false) :
    ∃ inst next, Moment setting before event inst next := by
  have consistent := consistent_of_reachable reachable
  have nonempty := consistent.run.before_ne_nil split later
  obtain ⟨run, legal⟩ := consistent.run.legal_of_split before event after split nonempty
  obtain ⟨final, folded, _⟩ := consistent.folds
  rw [split, List.append_cons] at folded
  obtain ⟨next, nextOk, _⟩ := exists_fold_of_append (by simp) folded
  obtain ⟨inst, instOk, _⟩ := exists_fold_of_append nonempty nextOk
  exact ⟨inst, next, instOk, nextOk, run, legal⟩

/-! ## Approvals -/

/-- Every start of a step that needs an approval comes after one. -/
theorem approval_before_start {ends : World → Code (Option DriveReport) → Prop}
    (reachable : Reachable setting ends world) {step : WorkflowStep}
    (member : step ∈ setting.definition.steps) (gated : step.requiresApproval = true) :
    EachAt (fun before event => starts event.payload step.stepId →
      ∃ earlier ∈ before, approves earlier.payload step.stepId) world.log := by
  intro before event after split now
  have later : event.isGenesis = false := by
    unfold Event.isGenesis
    cases payload : event.payload <;> simp_all [starts]
  obtain ⟨inst, next, moment⟩ := moment_of_split reachable split later
  have invariant := moment.run.invariant
  have started : ((replay before).after event).Started step.stepId :=
    (started_after step.stepId).mpr (.inr now)
  have approved := invariant.startedApproved_after moment.legal member gated started
  rcases (approved_after step.stepId).mp approved with ⟨earlier, listed, approves⟩ | approves
  · rw [log_replay] at listed
    exact ⟨earlier, listed, approves⟩
  · cases payload : event.payload <;> simp_all [Protocol.starts, Protocol.approves]

/-- A workflow of one step that needs an approval. -/
def releaseWorkflow : WorkflowDefinition where
  workflowId := "release"
  version := "1.0.0"
  steps := [{ stepId := "publish", agentType := "publisher", requiresApproval := true }]
  valid := rfl

def releaseSetting : Setting :=
  .withoutRequeue releaseWorkflow

def releaseDrive : Actor :=
  driveWith releaseSetting (.done { output := Dict.empty })

/-- The workflow has been driven to its approval. -/
def heldWorld : World :=
  executeAll releaseSetting {} [(50, releaseDrive)] (.opened releaseSetting none)

def releaseApproval : Actor :=
  .resolve
    { escalationId := heldWorld.escalationIds.headD "", tenantId := "tenant",
      resolution := .approve, resolvedBy := "operator" }

/-- It has been approved and driven to its end. -/
def releasedWorld : World :=
  executeAll releaseSetting {} [(50, releaseApproval), (50, releaseDrive)] heldWorld

theorem reachable_heldWorld : Reachable releaseSetting anywhere heldWorld :=
  (reachable_opened releaseSetting anywhere none).executeAll ⟨rfl, trivial, trivial⟩

theorem reachable_releasedWorld : Reachable releaseSetting anywhere releasedWorld :=
  reachable_heldWorld.executeAll ⟨rfl, trivial, rfl, trivial, trivial⟩

theorem approval_before_start_releasedWorld :
    "StepStarted" ∈ releasedWorld.eventTypes ∧
      EachAt (fun before event => starts event.payload "publish" →
        ∃ earlier ∈ before, approves earlier.payload "publish") releasedWorld.log :=
  ⟨by decide +kernel, approval_before_start reachable_releasedWorld
    (List.mem_singleton.mpr rfl) rfl⟩

/-! ## Dispatch -/

/-- What holds when a step is started: in the instance before the event, and for
the running steps after it. -/
structure DispatchSafe (definition : WorkflowDefinition) (step : WorkflowStep) (attempt : Nat)
    (time : Time) (inst next : WorkflowInstance) : Prop where
  running : inst.status = .running
  dependencies : ∀ dependency ∈ step.dependencies, isDone (inst.stepOr dependency).status = true
  runnable : (inst.stepOr step.stepId).status = .ready ∨
    (inst.stepOr step.stepId).status = .failed ∧
      ∃ retryAt, (inst.stepOr step.stepId).nextRetryAt = some retryAt ∧ retryAt ≤ time
  attempt : attempt = (inst.stepOr step.stepId).attempts + 1
  budget : ∀ remaining, inst.remainingBudgetUsd = some remaining → 0 < remaining
  concurrency : next.countSteps .running ≤ definition.maxConcurrentSteps

theorem isDone_iff {state : StepView} :
    isDone state.status = true ↔ state.status = .completed ∨ state.status = .skipped := by
  cases state.status <;> simp [isDone]

/-- Stored running steps are among those of the definition. -/
theorem countSteps_le_runningCount (folded : fold log (some setting.definition) = .ok inst)
    (invariant : Invariant (rulesOf setting) (replay log)) :
    inst.countSteps .running ≤ (replay log).runningCount setting.definition.stepIds := by
  unfold State.runningCount WorkflowInstance.countSteps Dict.values
  rw [List.countP_map, List.countP_eq_length_filter, List.countP_eq_length_filter]
  refine le_trans (List.length_map (f := Prod.fst)).ge (List.Subperm.length_le
    (List.subperm_of_subset ?_ ?_))
  · exact inst.stepStates.nodup.sublist (List.filter_sublist.map _)
  · intro stepId listed
    obtain ⟨⟨key, state⟩, found, rfl⟩ := List.mem_map.mp listed
    obtain ⟨entry, runs⟩ := List.mem_filter.mp found
    have stored := inst.stepOr_of_get? (Dict.get?_eq_some_iff.mpr entry)
    have running : ((replay log).steps key).status = .running := by
      rw [← view_of_fold folded]
      change (inst.stepOr key).status = .running
      rw [stored]
      simpa using runs
    exact List.mem_filter.mpr ⟨invariant.known key (by rw [running]; simp), by simpa using running⟩

/-- Steps are started only when they may be. -/
theorem dispatch_safe {ends : World → Code (Option DriveReport) → Prop}
    (noRequeue : setting.NoRequeue) (monotone : setting.monotoneClock)
    (reachable : Reachable setting ends world)
    {before after : List Event} {event : Event} {stepId : String} {attempt : Nat}
    {workerId : String} {modelSelected : Option String}
    (split : world.log = before ++ event :: after)
    (starts : event.payload = .stepStarted stepId attempt workerId modelSelected) :
    ∃ step ∈ setting.definition.steps, step.stepId = stepId ∧ ∃ inst next,
      fold before (some setting.definition) = .ok inst ∧
      fold (before ++ [event]) (some setting.definition) = .ok next ∧
      DispatchSafe setting.definition step attempt event.occurredAt inst next := by
  have later : event.isGenesis = false := by rw [Event.isGenesis, starts]
  have quiet := not_requeues_of_noRequeue noRequeue
  obtain ⟨inst, next, moment⟩ := moment_of_split reachable split later
  have invariant := moment.run.invariant
  have invariantNext := invariant.after moment.legal
  have legal := moment.legal
  rw [starts] at legal
  cases legal with
  | @started step _ _ _ member running done runnable numbered budget capacity _ _ =>
      refine ⟨step, member, rfl, inst, next, moment.folds, moment.foldsNext, ?_⟩
      constructor
      case running => rw [← moment.status, running]
      case dependencies =>
        intro dependency listed
        have finished := done quiet dependency listed
        unfold State.Done at finished
        rw [moment.steps] at finished
        exact isDone_iff.mpr finished
      case runnable =>
        rw [moment.steps] at runnable
        refine runnable.imp_right ?_
        rintro ⟨failed, retryAt, scheduled, due⟩
        exact ⟨failed, retryAt, scheduled, due monotone⟩
      case attempt =>
        rw [moment.steps] at numbered
        exact numbered
      case budget =>
        intro remaining found
        rw [← moment.remaining] at found
        exact budget remaining found
      case concurrency =>
        have counted : next.countSteps .running ≤
            (replay (before ++ [event])).runningCount setting.definition.stepIds := by
          apply countSteps_le_runningCount moment.foldsNext
          rw [replay_concat]
          exact invariantNext
        rw [replay_concat] at counted
        have others : ∀ other ≠ step.stepId,
            ((replay before).after event).steps other = (replay before).steps other := by
          intro other different
          have now : Protocol.starts event.payload step.stepId := by rw [starts]; rfl
          exact steps_advance_of_starts now different
        have grown : ((replay before).after event).runningCount setting.definition.stepIds ≤
            (replay before).runningCount setting.definition.stepIds + 1 :=
          runningCount_le_succ setting.definition.nodup_stepIds others
        exact counted.trans (grown.trans capacity)

/-- Two steps depend on the first one, and one step runs at a time. -/
def campaignWorkflow : WorkflowDefinition where
  workflowId := "campaign"
  version := "1.0.0"
  maxConcurrentSteps := 1
  steps :=
    [{ stepId := "plan", agentType := "planner" },
      { stepId := "print", agentType := "printer", dependencies := ["plan"] },
      { stepId := "mail", agentType := "mailer", dependencies := ["plan"] }]
  valid := rfl

def campaignSetting : Setting :=
  .withoutRequeue campaignWorkflow

def campaignWorld : World :=
  executeAll campaignSetting {}
    [(50, driveWith campaignSetting (.done { output := Dict.empty }))]
    (.opened campaignSetting none)

/-- The step that the event starts. -/
def startedStep : Payload → Option String
  | .stepStarted stepId _ _ _ => some stepId
  | _ => none

theorem dispatch_safe_campaignWorld :
    (campaignWorld.log.filterMap fun event => startedStep event.payload) =
        ["plan", "print", "mail"] ∧
      ∃ before event after attempt, campaignWorld.log = before ++ event :: after ∧
        ∃ step ∈ campaignWorkflow.steps, step.stepId = "mail" ∧ ∃ inst next,
          fold before (some campaignWorkflow) = .ok inst ∧
          fold (before ++ [event]) (some campaignWorkflow) = .ok next ∧
          DispatchSafe campaignWorkflow step attempt event.occurredAt inst next := by
  refine ⟨by decide +kernel, ?_⟩
  have found : ∃ event ∈ campaignWorld.log, startedStep event.payload = some "mail" := by
    decide +kernel
  have reachable : Reachable campaignSetting anywhere campaignWorld :=
    (reachable_opened campaignSetting anywhere none).executeAll ⟨rfl, trivial, trivial⟩
  obtain ⟨event, member, starts⟩ := found
  obtain ⟨before, after, split⟩ := List.append_of_mem member
  cases payload : event.payload with
  | stepStarted stepId attempt workerId modelSelected =>
      rw [payload] at starts
      cases starts
      exact ⟨before, event, after, attempt, split,
        dispatch_safe (noRequeue_withoutRequeue _) trivial reachable split payload⟩
  | _ => simp [payload, startedStep] at starts

/-! ## Completion -/

/-- A finished workflow leaves its done steps alone. -/
theorem steps_advance_of_completed {rules : Rules} {state : State} {time : Time} {payload : Payload}
    (legal : Legal rules state time payload) (noRequeue : ¬ rules.requeues)
    (completed : state.status = .completed) (done : state.Done stepId) :
    (state.advance payload).steps stepId = state.steps stepId := by
  have elsewhere {other : String} {change : StepView → StepView} (undone : ¬ state.Done other) :
      (state.modifyStep other change).steps stepId = state.steps stepId := by
    rw [steps_modifyStep, if_neg]
    rintro rfl
    exact undone done
  have undone {other : String} {status : StepStatus} (found : (state.steps other).status = status)
      (not : isDone status = false) : ¬ state.Done other := by
    intro isDone
    rw [← found, Bool.eq_false_iff] at not
    exact not (isDone_iff.mpr isDone)
  have notLoose : ∀ other, ¬ Loose rules state other := fun _ loose => noRequeue loose.1
  cases legal with
  | recovered _ running | completed _ running _ | failed _ running _ =>
    rw [State.advance]
    exact elsewhere (undone running rfl)
  | readied _ pending _ =>
    rw [State.advance]
    exact elsewhere (undone pending rfl)
  | retryScheduled _ failed =>
    rw [State.advance]
    exact elsewhere (undone failed rfl)
  | released _ waiting _ _ | skipped _ waiting _ =>
    rw [State.advance]
    exact elsewhere (undone (waiting.resolve_right (notLoose _)) rfl)
  | started _ running _ _ _ _ _ _ _ | approvalRaised _ _ _ _ _ _ _ running
  | reviewRaised _ _ _ _ running _ | policyRaised _ _ _ _ _ running
  | compensationRaised _ _ running | compensated _ _ running => simp [completed] at running
  | requeued requeues _ _ _ => exact absurd requeues noRequeue
  | _ => rfl

/-- What was done when the workflow was completed is found unchanged later. -/
theorem steps_of_completed {before middle : List Event} (noRequeue : ¬ (rulesOf setting).requeues)
    (run : Run (rulesOf setting) (before ++ middle)) (nonempty : before ≠ [])
    (completed : (replay before).status = .completed) (done : (replay before).Done stepId) :
    (replay (before ++ middle)).status = .completed ∧
      (replay (before ++ middle)).steps stepId = (replay before).steps stepId := by
  induction middle using List.reverseRecOn with
  | nil => simpa using completed
  | append_singleton middle event ih =>
    rw [← List.append_assoc] at run ⊢
    have longer : before ++ middle ≠ [] := by simp [nonempty]
    obtain ⟨earlier, legal⟩ := run.legal_of_split (before ++ middle) event [] rfl longer
    obtain ⟨status, steps⟩ := ih earlier
    have stillDone : (replay (before ++ middle)).Done stepId := by
      unfold State.Done
      rw [steps]
      exact done
    rw [replay_concat]
    constructor
    · rw [status_after_of_isTerminal (legal.accepts noRequeue) (by rw [status]; rfl), status]
    · exact (steps_advance_of_completed legal noRequeue status stillDone).trans steps

/-- The outputs of the completed steps of an instance, by step. -/
def OutputsOf (inst : WorkflowInstance) (outputs : JsonDict) : Prop :=
  ∀ stepId value, outputs.get? stepId = some value ↔
    ∃ output, (inst.stepOr stepId).status = .completed ∧
      (inst.stepOr stepId).output = some output ∧ value = output.toJson

/-- What is recorded as the outcome of a completed workflow. -/
structure CompletedWith (definition : WorkflowDefinition) (before after : List Event)
    (inst : WorkflowInstance) : Prop where
  folds : fold before (some definition) = .ok inst
  done : ∀ stepId ∈ definition.stepIds, isDone (inst.stepOr stepId).status = true
  outputs : ∀ event ∈ after, ∀ outputs, event.payload = .instanceCompleted outputs →
    OutputsOf inst outputs

private theorem completedWith_of_split (noRequeue : setting.NoRequeue)
    (reachable : Reachable setting ends world) {event : Event} {source : WorkflowStatus}
    {reason : Option String} (split : world.log = before ++ event :: after)
    (finishes : event.payload = .instanceStatusChanged source .completed reason) :
    ∃ inst, CompletedWith setting.definition before after inst := by
  have quiet := not_requeues_of_noRequeue noRequeue
  have later : event.isGenesis = false := by rw [Event.isGenesis, finishes]
  obtain ⟨inst, next, moment⟩ := moment_of_split reachable split later
  have done : ∀ stepId ∈ setting.definition.stepIds, (replay before).Done stepId := by
    have legal := moment.legal
    rw [finishes] at legal
    cases legal with
    | moved _ unfinished => exact absurd rfl unfinished
    | finished _ done => exact done
  have advanced : ∀ stepId, ((replay before).after event).steps stepId =
      (replay before).steps stepId := by
    intro stepId
    rw [State.after, finishes]
    rfl
  have completed : (replay (before ++ [event])).status = .completed := by
    rw [replay_concat, State.after, finishes]
    rfl
  have unchanged : ∀ middle, Run (rulesOf setting) (before ++ [event] ++ middle) →
      ∀ stepId ∈ setting.definition.stepIds,
        (replay (before ++ [event] ++ middle)).steps stepId = .of (inst.stepOr stepId) := by
    intro middle run stepId member
    have stillDone : (replay (before ++ [event])).Done stepId := by
      unfold State.Done
      rw [replay_concat, advanced]
      exact done stepId member
    rw [(steps_of_completed quiet run (by simp) completed stillDone).2, replay_concat, advanced,
      moment.steps]
  refine ⟨inst, moment.folds, ?_, ?_⟩
  · intro stepId member
    have finished := done stepId member
    unfold State.Done at finished
    rw [moment.steps] at finished
    exact isDone_iff.mpr finished
  · intro other listed outputs records
    obtain ⟨middle, rest, rfl⟩ := List.append_of_mem listed
    have split' : world.log = (before ++ [event] ++ middle) ++ other :: rest := by simp [split]
    have notFirst : other.isGenesis = false := by rw [Event.isGenesis, records]
    obtain ⟨_, _, moment'⟩ := moment_of_split reachable split' notFirst
    have legal := moment'.legal
    rw [records] at legal
    cases legal with
    | outputsRecorded _ _ exact_ =>
      intro stepId value
      rw [exact_ stepId value]
      by_cases member : stepId ∈ setting.definition.stepIds
      · rw [unchanged middle moment'.run stepId member]
        rfl
      · have untouched : ∀ log, Run (rulesOf setting) log →
            ((replay log).steps stepId).status ≠ .completed := by
          intro log run completed
          exact member (run.invariant.known stepId (by rw [completed]; simp))
        have before := untouched before moment.run
        rw [moment.steps] at before
        constructor
        · rintro ⟨_, status, _⟩
          exact absurd status (untouched _ moment'.run)
        · rintro ⟨_, status, _⟩
          exact absurd status before

/-- Steps complete at most once, a completed workflow has all its steps done and
records their outputs, and a final status stays. -/
theorem completion_exactly_once {ends : World → Code (Option DriveReport) → Prop}
    (noRequeue : setting.NoRequeue) (reachable : Reachable setting ends world) :
    (∀ stepId, world.log.countP (fun event => completes event.payload stepId) ≤ 1) ∧
    (∀ before event after source reason, world.log = before ++ event :: after →
      event.payload = .instanceStatusChanged source .completed reason →
      ∃ inst, CompletedWith setting.definition before after inst) ∧
    (∀ before event after inst, world.log = before ++ event :: after →
      fold before (some setting.definition) = .ok inst → inst.status.isTerminal = true →
      ∃ next, fold (before ++ [event]) (some setting.definition) = .ok next ∧
        next.status = inst.status) := by
  have quiet := not_requeues_of_noRequeue noRequeue
  refine ⟨?_, ?_, ?_⟩
  · intro stepId
    have consistent := consistent_of_reachable reachable
    have counted := consistent.run.invariant.completions quiet stepId
    unfold State.completions at counted
    rw [log_replay] at counted
    rw [counted]
    split <;> omega
  · intro before event after source reason split finishes
    exact completedWith_of_split noRequeue reachable split finishes
  · intro before event after inst split folded terminal
    have consistent := consistent_of_reachable reachable
    obtain ⟨run, legal⟩ := consistent.run.legal_of_split before event after split
      (ne_nil_of_fold folded)
    obtain ⟨final, finalOk, _⟩ := consistent.folds
    rw [split, List.append_cons] at finalOk
    obtain ⟨next, nextOk, _⟩ := exists_fold_of_append (by simp) finalOk
    refine ⟨next, nextOk, ?_⟩
    have status : (replay before).status = inst.status := by
      rw [← view_of_fold folded]
      rfl
    have nextStatus : (replay (before ++ [event])).status = next.status := by
      rw [← view_of_fold nextOk]
      rfl
    rw [← nextStatus, replay_concat, ← status]
    exact status_after_of_isTerminal (legal.accepts quiet) (by rw [status]; exact terminal)

theorem completion_exactly_once_releasedWorld :
    (∃ event ∈ releasedWorld.log, completes event.payload "publish" = true) ∧
      "InstanceCompleted" ∈ releasedWorld.eventTypes ∧
      (∀ stepId, releasedWorld.log.countP (fun event => completes event.payload stepId) ≤ 1) ∧
      (∀ before event after source reason, releasedWorld.log = before ++ event :: after →
        event.payload = .instanceStatusChanged source .completed reason →
        ∃ inst, CompletedWith releaseWorkflow before after inst) ∧
      (∀ before event after inst, releasedWorld.log = before ++ event :: after →
        fold before (some releaseWorkflow) = .ok inst → inst.status.isTerminal = true →
        ∃ next, fold (before ++ [event]) (some releaseWorkflow) = .ok next ∧
          next.status = inst.status) :=
  ⟨by decide +kernel, by decide +kernel,
    completion_exactly_once (noRequeue_withoutRequeue _) reachable_releasedWorld⟩

/-! ## Accepted batches -/

/-- Unresolved escalations hold their steps, and no step has two of them. -/
structure EscalationsHold (inst : WorkflowInstance) : Prop where
  held : ∀ ref ∈ inst.escalations, ref.resolved = false → ref.stepId ≠ "" →
    (inst.stepOr ref.stepId).status = .waitingApproval
  single : ∀ stepId ≠ "",
    (inst.escalations.filter fun ref => ref.stepId = stepId && !ref.resolved).length ≤ 1

private theorem length_le_one_of_all_eq {α : Type} {elements : List α} (nodup : elements.Nodup)
    (same : ∀ first ∈ elements, ∀ second ∈ elements, first = second) : elements.length ≤ 1 := by
  match elements, nodup, same with
  | [], _, _ => simp
  | [_], _, _ => simp
  | first :: second :: _, nodup, same =>
    have equal := same first List.mem_cons_self second (by simp)
    simp [equal] at nodup

theorem escalationsHold_of_run (noRequeue : ¬ (rulesOf setting).requeues)
    (run : Run (rulesOf setting) log) (folded : fold log (some setting.definition) = .ok inst) :
    EscalationsHold inst := by
  have notLoose : ∀ stepId, ¬ Loose (rulesOf setting) (replay log) stepId :=
    fun _ loose => noRequeue loose.1
  have invariant := run.invariant
  have escalations : (replay log).escalations = inst.escalations := by
    rw [← view_of_fold folded]
    rfl
  constructor
  · intro ref member unresolved stepLevel
    have held := invariant.held ref (escalations ▸ member) unresolved stepLevel
    have waiting := held.resolve_right (notLoose _)
    rw [← view_of_fold folded] at waiting
    exact waiting
  · intro stepId stepLevel
    have distinct : inst.escalations.Nodup := by
      rw [← escalations]
      exact invariant.ids.of_map
    apply length_le_one_of_all_eq (distinct.filter _)
    intro first firstListed second secondListed
    rw [List.mem_filter] at firstListed secondListed
    simp only [Bool.and_eq_true, decide_eq_true_eq, Bool.not_eq_true'] at firstListed secondListed
    obtain ⟨firstMember, rfl, firstOpen⟩ := firstListed
    obtain ⟨secondMember, sameStep, secondOpen⟩ := secondListed
    rw [← escalations] at firstMember secondMember
    exact (invariant.single first firstMember second secondMember firstOpen secondOpen
      sameStep.symm stepLevel).resolve_right (notLoose _)

/-- A legal batch at the current version folds, with or without the definition. -/
theorem fold_of_sound {batch : List Event} {drafts : List Event}
    (noRequeue : ¬ (rulesOf setting).requeues) (consistent : Consistent setting world)
    (current : version = world.log.length) (numbered : batch = resequence version drafts)
    (sound : Sound setting world batch) :
    (∃ inst, fold (world.log ++ batch) (some setting.definition) = .ok inst) ∧
      ∃ inst, fold (world.log ++ batch) = .ok inst := by
  subst current numbered
  obtain ⟨inst, folded, _⟩ := consistent.folds
  exact Holds.exists_fold folded (sound.legal.acceptsAll noRequeue)

/-- Whatever a writer is about to append at the current version, the fold takes
it. -/
theorem writers_never_rejected {ends : World → Code (Option DriveReport) → Prop}
    (noRequeue : setting.NoRequeue) (reachable : Reachable setting ends world) {actor : Actor}
    (admitted : setting.admits actor) {next : World} {instanceId tenantId : String}
    {drafts : List Event} {version : Nat} {guarded : Bool} {wakeup : Option Time}
    {rest : Except Exn (Nat × List Event) → Code (Option DriveReport)}
    (steps : Program.Steps (answers setting) world (actor.program setting) next
      (.perform (.appendNew instanceId tenantId drafts version guarded wakeup) rest))
    (current : version = next.log.length) :
    (∃ inst, fold next.log (some setting.definition) = .ok inst ∧ EscalationsHold inst) ∧
      (∃ inst, fold (next.log ++ resequence version drafts) (some setting.definition) = .ok inst) ∧
      ∃ inst, fold (next.log ++ resequence version drafts) = .ok inst := by
  have quiet := not_requeues_of_noRequeue noRequeue
  have clear := clear_of_reachable (leavesTidy_noCare setting ends) False.elim False.elim reachable
  have safe := (keeps_program admitted False.elim False.elim clear).steps steps
  obtain ⟨consistent, proper⟩ := safe.1
  obtain ⟨inst, folded, _⟩ := consistent.folds
  exact ⟨⟨inst, folded, escalationsHold_of_run quiet consistent.run folded⟩,
    fold_of_sound quiet consistent current rfl (proper current).sound⟩

/-- The version at which the code is about to append. -/
def appendsAt {α : Type} : Code α → Option Nat
  | .perform (.appendNew _ _ _ version _ _) _ => some version
  | _ => none

theorem eq_perform_of_appendsAt {α : Type} {code : Code α}
    (appends : appendsAt code = some version) :
    ∃ instanceId tenantId drafts guarded wakeup rest, code =
      .perform (.appendNew instanceId tenantId drafts version guarded wakeup) rest := by
  cases code with
  | perform op rest =>
    cases op with
    | appendNew instanceId tenantId drafts expectedVersion guarded wakeup =>
      cases appends
      exact ⟨instanceId, tenantId, drafts, guarded, wakeup, rest, rfl⟩
    | _ => cases appends
  | _ => cases appends

theorem writers_never_rejected_heldWorld :
    ∃ next instanceId tenantId drafts guarded wakeup rest,
      Program.Steps (answers releaseSetting) heldWorld (releaseApproval.program releaseSetting) next
        (.perform (.appendNew instanceId tenantId drafts 5 guarded wakeup) rest) ∧
      5 = next.log.length ∧
      ((∃ inst, fold next.log (some releaseWorkflow) = .ok inst ∧ EscalationsHold inst) ∧
        (∃ inst, fold (next.log ++ resequence 5 drafts) (some releaseWorkflow) = .ok inst) ∧
        ∃ inst, fold (next.log ++ resequence 5 drafts) = .ok inst) := by
  have appends : appendsAt (execute releaseSetting {} 6 releaseApproval heldWorld).2 = some 5 := by
    decide +kernel
  have current : 5 = (execute releaseSetting {} 6 releaseApproval heldWorld).1.log.length := by
    decide +kernel
  have admitted : releaseSetting.admits releaseApproval := rfl
  have steps := Program.steps_runFor (World.answers_answer releaseSetting {}) 6 heldWorld
    (releaseApproval.program releaseSetting)
  obtain ⟨instanceId, tenantId, drafts, guarded, wakeup, rest, residual⟩ :=
    eq_perform_of_appendsAt appends
  unfold execute at residual
  rw [residual] at steps
  exact ⟨_, instanceId, tenantId, drafts, guarded, wakeup, rest, steps, current,
    writers_never_rejected (noRequeue_withoutRequeue _) reachable_heldWorld admitted steps
      current⟩

end AgentForge.Guarantees
