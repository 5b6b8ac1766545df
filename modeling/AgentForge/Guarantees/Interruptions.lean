import AgentForge.Guarantees.Journal

/-!
# What interruptions cost

Between two appends a worker knows more than the journal does: that a retry is
to be scheduled, that a review was asked for, that a model has answered.  A
worker that is interrupted there loses it.  Runs in which nobody is interrupted
with such a debt keep every retry, hold every review and call no model twice;
short runs show what happens otherwise.
-/

namespace AgentForge.Guarantees

open Domain Events Library Engine Protocol Refinement

variable {setting : Setting} {world : World}

variable {payload : Payload} {stepId : String} {attempt : Nat} {event : Event}
  {residual : Code (Option DriveReport)} {log : List Event}

/-! ## Retries -/

/-- The last failure of the step was not retryable, or it has used up its
retries. -/
def PolicyJustified (definition : WorkflowDefinition) (record : PolicyRecord) : Prop :=
  ∃ step ∈ definition.steps, step.stepId = record.stepId ∧ ∃ attempt retryable,
    lastFailure record.log record.stepId = some (attempt, retryable) ∧
      (retryable = false ∨ step.retryPolicy.maxRetries < attempt)

private theorem failedAttempt_of_fails
    (failed : fails payload stepId = true) :
    ∃ found, failedAttempt payload stepId = some found := by
  cases payload with
  | stepFailed failedId attempt errorType errorMessage retryable =>
    exact ⟨(attempt, retryable), if_pos (of_decide_eq_true failed)⟩
  | _ => cases failed

/-- A failed step has a last failure. -/
theorem exists_lastFailure {rules : Rules} (run : Run rules log)
    (failed : ((replay log).steps stepId).status = .failed) :
    ∃ found, lastFailure log stepId = some found := by
  induction run with
  | genesis isGenesis =>
    obtain ⟨_, initial⟩ := replay_genesis isGenesis
    rw [initial] at failed
    cases failed
  | @step log event _ legal _ ih =>
    rw [replay_concat] at failed
    rw [lastFailure_append]
    have before (failed : ((replay log).steps stepId).status = .failed) :
        ∃ found, (([event].filterMap fun event =>
          failedAttempt event.payload stepId).getLast?.or (lastFailure log stepId)) =
            some found := by
      obtain ⟨found, last⟩ := ih failed
      rw [last]
      cases ([event].filterMap fun event => failedAttempt event.payload stepId).getLast? with
      | none => exact ⟨found, rfl⟩
      | some newer => exact ⟨newer, rfl⟩
    have change := legal.stepChange_after stepId
    generalize ((replay log).after event).steps stepId = next at change failed
    cases change with
    | same => exact before failed
    | retryScheduled earlier => exact before earlier
    | failed reported _ =>
      obtain ⟨found, reports⟩ := failedAttempt_of_fails reported
      exact ⟨found, by simp [reports]⟩
    | released _ _ _ =>
      by_cases output : ((replay log).steps stepId).output.isSome <;> simp [output] at failed
    | _ => simp at failed

/-- Nobody is interrupted while a retry is owed. -/
def KeepsRetries (setting : Setting) (world : World) (residual : Code (Option DriveReport)) :
    Prop :=
  Interrupted residual → ∀ stepId, ¬ RetryOwed setting.definition world.log stepId

/-- The failure policy is applied only to steps that have no retry left. -/
theorem policies_justified (reachable : Reachable setting (KeepsRetries setting) world) :
    ∀ record ∈ world.policies, PolicyJustified setting.definition record := by
  have leaves : LeavesTidy setting ⟨True, False, False, False⟩ (KeepsRetries setting) :=
    fun _ _ ends interrupted => ⟨fun _ => ends interrupted, False.elim, False.elim⟩
  refine law_of_reachable
    (fun world => ∀ record ∈ world.policies, PolicyJustified setting.definition record)
    leaves False.elim False.elim ?_ ?_ reachable
  · rintro world ⟨event, clock, issued, _, _, _, rfl⟩ record ⟨⟩
  · intro world op response next holds conduct answered
    cases change_of_answers answered with
    | none _ _ policies =>
        rw [policies]
        exact holds
    | committed committed =>
        obtain ⟨_, _, _, _, _, rfl⟩ := commit_eq_ok committed
        exact holds
    | called | recorded | resolved => exact holds
    | @noted mark =>
        cases mark with
        | attemptFinished => exact holds
        | policyApplied stepId =>
            apply forall_mem_concat holds
            obtain ⟨consistent, tidy, failed, unscheduled⟩ := conduct
            obtain ⟨inst, folded, _⟩ := consistent.folds
            have known := consistent.run.invariant.known stepId (by rw [failed]; simp)
            obtain ⟨step, stepMember, rfl⟩ := List.mem_map.mp known
            obtain ⟨⟨attempt, retryable⟩, last⟩ := exists_lastFailure consistent.run failed
            refine ⟨step, stepMember, rfl, attempt, retryable, last, ?_⟩
            by_contra spare
            rw [not_or, Bool.not_eq_false, not_lt] at spare
            refine tidy.retries trivial step.stepId ((retryOwed_iff folded _).mpr
              ⟨failed, unscheduled, step, stepMember, rfl, attempt, spare.2, ?_⟩)
            rw [last, spare.1]

/-- A workflow of one step. -/
def fetchWorkflow : WorkflowDefinition where
  workflowId := "fetch"
  version := "1.0.0"
  steps := [{ stepId := "download", agentType := "downloader" }]
  valid := rfl

def fetchSetting : Setting :=
  .withoutRequeue fetchWorkflow

/-- The step has failed for good. -/
def fetchFailed : World :=
  executeAll fetchSetting {}
    [(50, driveWith fetchSetting
      (.raise { exnClass := .exception, typeName := "ValueError", message := "malformed" }))]
    (.opened fetchSetting none)

theorem policies_justified_fetchFailed :
    fetchFailed.policies.length = 1 ∧
      ∀ record ∈ fetchFailed.policies, PolicyJustified fetchWorkflow record := by
  refine ⟨by decide +kernel, ?_⟩
  have reachable : Reachable fetchSetting (KeepsRetries fetchSetting) fetchFailed :=
    (reachable_opened fetchSetting _ none).executeAll
      ⟨rfl, fun interrupted => absurd interrupted (by decide +kernel), trivial⟩
  exact policies_justified reachable

/-- A drive whose step loses its connection. -/
def disconnectedDrive : Actor :=
  driveWith fetchSetting
    (.raise { exnClass := .exception, typeName := "ConnectionError", message := "down" })

/-- A worker has died right after it has reported the failure of the step. -/
def failureReported : World :=
  executeAll fetchSetting {} [(17, disconnectedDrive)] (.opened fetchSetting none)

/-- Another worker has taken over. -/
def retryForgotten : World :=
  executeAll fetchSetting {} [(50, disconnectedDrive)] failureReported

theorem reachable_failureReported : Reachable fetchSetting anywhere failureReported :=
  (reachable_opened fetchSetting anywhere none).executeAll ⟨rfl, trivial, trivial⟩

/-- The first failure of a step that may be retried three times makes the second
worker apply the failure policy. -/
theorem retry_lost_after_crash :
    (execute fetchSetting {} 16 disconnectedDrive (.opened fetchSetting none)).1.log.length <
        failureReported.log.length ∧
      Reachable fetchSetting anywhere retryForgotten ∧
      ∃ record ∈ retryForgotten.policies, ¬ PolicyJustified fetchWorkflow record := by
  refine ⟨by decide +kernel, reachable_failureReported.executeAll ⟨rfl, trivial, trivial⟩, ?_⟩
  · have applied : ∃ record ∈ retryForgotten.policies,
        lastFailure record.log record.stepId = some (1, true) := by decide +kernel
    obtain ⟨record, member, last⟩ := applied
    refine ⟨record, member, ?_⟩
    rintro ⟨step, stepMember, _, attempt, retryable, found, unjustified⟩
    rw [last] at found
    cases found
    rw [List.mem_singleton.mp stepMember] at unjustified
    rcases unjustified with never | used
    · cases never
    · exact absurd used (by decide)

/-! ## Reviews -/

/-- The event closes the escalation. -/
def closes (escalationId : String) (event : Event) : Prop :=
  (∃ stepId resolution resolvedBy modifiedContext, event.payload =
    .escalationResolved escalationId stepId resolution resolvedBy modifiedContext) ∨
  ∃ stepId autoAction, event.payload = .escalationTimedOut escalationId stepId autoAction

/-- Events that have to wait for a review of the step: the start of a step that
depends on it, and the completion of the workflow. -/
def MustWait (definition : WorkflowDefinition) (stepId : String) (event : Event) : Prop :=
  (∃ step ∈ definition.steps, stepId ∈ step.dependencies ∧ starts event.payload step.stepId) ∨
    ∃ source reason, event.payload = .instanceStatusChanged source .completed reason

/-- What has to wait for a review that was asked for has waited until it was
raised and closed. -/
def ReviewsHeld (definition : WorkflowDefinition) (world : World) : Prop :=
  ∀ record ∈ world.attempts, record.outcome.review.isSome = true →
    (∃ event ∈ world.log, completesAttempt record.stepId record.attempt event) →
    EachAt (fun before event => MustWait definition record.stepId event →
      ∃ escalationId, InOrder [raisesFor record.stepId escalationId, closes escalationId] before)
      world.log

section Reviews

variable {log before after : List Event} {event : Event} {stepId escalationId : String}

/-- An escalation stays listed; only an event that closes it changes it. -/
private theorem ref_after {state : State} {ref : EscalationRef} (member : ref ∈ state.escalations) :
    ref ∈ (state.after event).escalations ∨ closes ref.escalationId event ∧
        { ref with resolved := true } ∈ (state.after event).escalations := by
  have closing {closed : String} (closes_ : ∀ same : ref.escalationId = closed,
      closes ref.escalationId event) :
      ref ∈ (state.closeEscalation closed).escalations ∨
        closes ref.escalationId event ∧
          { ref with resolved := true } ∈ (state.closeEscalation closed).escalations := by
    by_cases same : ref.escalationId = closed
    · exact .inr ⟨closes_ same, List.mem_map.mpr ⟨ref, member, if_pos same⟩⟩
    · exact .inl (List.mem_map.mpr ⟨ref, member, if_neg same⟩)
  unfold State.after
  cases payload : event.payload with
  | escalationRaised => exact .inl (List.mem_append_left _ member)
  | escalationResolved =>
    apply closing
    rintro rfl
    exact .inl ⟨_, _, _, _, payload⟩
  | escalationTimedOut =>
    apply closing
    rintro rfl
    exact .inr ⟨_, _, payload⟩
  | workflowRequeued stepId => cases stepId <;> exact .inl member
  | _ => exact .inl member

/-- An escalation that was raised is listed, and if it is resolved it was closed
after it was raised. -/
theorem exists_ref_of_raised (raised : ∃ event ∈ log, raisesFor stepId escalationId event) :
    ∃ ref ∈ (replay log).escalations, ref.escalationId = escalationId ∧ ref.stepId = stepId ∧
      (ref.resolved = true → InOrder [raisesFor stepId escalationId, closes escalationId] log) := by
  induction log using List.reverseRecOn with
  | nil => simp at raised
  | append_singleton log last ih =>
    rw [replay_concat]
    obtain ⟨event, member, raises⟩ := raised
    rcases List.mem_append.mp member with old | new
    · obtain ⟨ref, listed, sameId, sameStep, closed⟩ := ih ⟨event, old, raises⟩
      rcases ref_after listed with still | ⟨closing, changed⟩
      · exact ⟨ref, still, sameId, sameStep, fun resolved => (closed resolved).append _⟩
      · refine ⟨{ ref with resolved := true }, changed, sameId, sameStep, fun _ => ?_⟩
        rw [sameId] at closing
        exact (inOrder_singleton.mpr ⟨event, old, raises⟩).concat (List.mem_singleton.mpr rfl)
          closing
    · rw [List.mem_singleton] at new
      subst new
      obtain ⟨escalation, payload, rfl, rfl⟩ := raises
      refine ⟨⟨escalation.escalationId, escalation.stepId, escalation.reason,
        escalation.deadline, false⟩, ?_, rfl, rfl, fun resolved => by cases resolved⟩
      rw [State.after, payload]
      exact List.mem_append_right _ (List.mem_singleton.mpr rfl)

variable (noRequeue : ¬ (rulesOf setting).requeues)

include noRequeue

/-- What has to wait for the step finds it done. -/
theorem done_of_mustWait
    (legal : Legal (rulesOf setting) (replay before) event.occurredAt event.payload)
    (known : stepId ∈ setting.definition.stepIds)
    (waits : MustWait setting.definition stepId event) :
    (replay before).Done stepId := by
  rcases waits with ⟨step, member, depends, started⟩ | ⟨source, reason, finishes⟩
  · obtain ⟨found, foundMember, sameId, done, _⟩ := legal.of_starts started
    have same := setting.definition.eq_of_stepId_eq foundMember member sameId
    subst same
    exact done noRequeue stepId depends
  · rw [finishes] at legal
    cases legal with
    | moved _ unfinished => exact absurd rfl unfinished
    | finished _ done => exact done stepId known

variable (run : Run (rulesOf setting) log)

include run

/-- After an event that has to wait for the step, the step is not completed. -/
theorem not_completes_of_mustWait (split : log = before ++ event :: after)
    (waits : MustWait setting.definition stepId event) :
    ∀ later ∈ after, completes later.payload stepId = false := by
  intro later member
  rw [Bool.eq_false_iff]
  intro completed
  obtain ⟨middle, rest, rfl⟩ := List.append_of_mem member
  have split' : log = (before ++ [event] ++ middle) ++ later :: rest := by simp [split]
  obtain ⟨runMiddle, legal⟩ := run.legal_of_split _ later rest split' (by simp)
  obtain ⟨running, _⟩ := legal.of_completes completed
  have settled : (replay (before ++ [event] ++ middle)).Done stepId ∨
      ((replay (before ++ [event] ++ middle)).steps stepId).status = .compensated := by
    have notFirst : event.isGenesis = false := by
      rcases waits with ⟨_, _, _, started⟩ | ⟨_, _, finishes⟩
      · unfold Event.isGenesis
        cases payload : event.payload <;> simp_all [starts]
      · rw [Event.isGenesis, finishes]
    have nonempty := run.before_ne_nil split notFirst
    obtain ⟨_, legalEvent⟩ := run.legal_of_split before event _ split nonempty
    have known := runMiddle.invariant.known stepId (by rw [running]; simp)
    have done := done_of_mustWait noRequeue legalEvent known waits
    rcases waits with ⟨step, stepMember, depends, started⟩ | ⟨source, reason, finishes⟩
    · apply runMiddle.invariant.depsSettled noRequeue step stepMember _ stepId depends
      refine ⟨event, ?_, started⟩
      rw [log_replay]
      simp
    · have completed : (replay (before ++ [event])).status = .completed := by
        rw [replay_concat, State.after, finishes]
        rfl
      have doneAfter : (replay (before ++ [event])).Done stepId := by
        rw [replay_concat, State.after, finishes]
        exact done
      left
      unfold State.Done
      rw [(steps_of_completed noRequeue runMiddle (by simp) completed doneAfter).2]
      exact doneAfter
  unfold State.Done at settled
  rw [running] at settled
  simp at settled

/-- A completed step is one of the definition. -/
theorem known_of_completed (completed : ∃ event ∈ log, completesAttempt stepId attempt event) :
    stepId ∈ setting.definition.stepIds := by
  obtain ⟨event, member, output, modelUsed, payload⟩ := completed
  have invariant := run.invariant
  have counted : 0 < (replay log).completions stepId := by
    unfold State.completions
    rw [log_replay, List.countP_pos_iff]
    exact ⟨event, member, by rw [payload]; exact decide_eq_true rfl⟩
  rw [invariant.completions noRequeue stepId] at counted
  have output : ((replay log).steps stepId).output ≠ none := by
    intro missing
    simp [missing] at counted
  exact invariant.known stepId
    (invariant.started stepId (invariant.startedStatus stepId (.inr (.inr output))))

/-- A raised escalation of a step that is done has been closed. -/
theorem closed_of_done (known : stepId ∈ setting.definition.stepIds)
    (done : (replay log).Done stepId)
    (raised : ∃ event ∈ log, raisesFor stepId escalationId event) :
    InOrder [raisesFor stepId escalationId, closes escalationId] log := by
  obtain ⟨ref, listed, _, sameStep, closed⟩ := exists_ref_of_raised raised
  apply closed
  by_contra unresolved
  rw [Bool.not_eq_true] at unresolved
  have stepLevel := setting.definition.stepId_ne_empty known
  have held := run.invariant.held ref listed unresolved (sameStep ▸ stepLevel)
  rw [sameStep] at held
  have waiting := held.resolve_right fun loose => noRequeue loose.1
  unfold State.Done at done
  rw [waiting] at done
  simp at done

end Reviews

/-- A running step has not been completed. -/
theorem not_completes_of_running (noRequeue : ¬ (rulesOf setting).requeues)
    (run : Run (rulesOf setting) log) (running : ((replay log).steps stepId).status = .running) :
    ∀ event ∈ log, completes event.payload stepId = false := by
  have invariant := run.invariant
  have missing : ((replay log).steps stepId).output = none := by
    by_contra found
    have settled := invariant.outputStatus noRequeue stepId found
    simp [running] at settled
  have counted := invariant.completions noRequeue stepId
  rw [if_pos missing, State.completions, log_replay, List.countP_eq_zero] at counted
  exact fun event member => Bool.eq_false_iff.mpr (counted event member)

section Commit

variable {care : Care} {next : World} {instanceId tenantId : String} {drafts : List Event}
  {version : Nat}

private theorem gated_of_mustWait
    (waits : MustWait setting.definition stepId event) : gated event.payload = true := by
  rcases waits with ⟨step, _, _, started⟩ | ⟨source, reason, finishes⟩
  · cases payload : event.payload <;> simp_all [starts, gated]
  · rw [finishes]
    rfl

private theorem completes_of_completesAttempt (completed : completesAttempt stepId attempt event) :
    completes event.payload stepId = true := by
  obtain ⟨output, modelUsed, payload⟩ := completed
  rw [payload]
  exact decide_eq_true rfl

/-- An append holds back what has to wait for a review. -/
theorem ReviewsHeld.commit (held : ReviewsHeld setting.definition world) (cares : care.reviews)
    (noRequeue : ¬ (rulesOf setting).requeues) (consistent : Consistent setting world)
    (proper : Proper setting care world (resequence version drafts))
    (committed : world.commit setting instanceId tenantId drafts version = .ok next) :
    ReviewsHeld setting.definition next := by
  have nextRun := (consistent.commit committed proper.sound).run
  obtain ⟨_, _, _, _, _, rfl⟩ := commit_eq_ok committed
  generalize resequence version drafts = batch at *
  intro record member asked completed before event after split waits
  change world.log ++ batch = before ++ event :: after at split
  obtain ⟨completion, listed, completes⟩ := completed
  -- An event of the batch finds no review owed, so the review has been raised and closed.
  have inBatch (early : List Event) (beforeEq : before = world.log ++ early)
      (batchEq : batch = early ++ event :: after) :
      ∃ escalationId,
        InOrder [raisesFor record.stepId escalationId, closes escalationId] before := by
    have eventListed : event ∈ batch := by simp [batchEq]
    rcases proper.held with ⟨tidy, noEndings⟩ | ungated
    · have completedBefore :
          ∃ event ∈ world.log, completesAttempt record.stepId record.attempt event := by
        rcases List.mem_append.mp listed with old | new
        · exact ⟨completion, old, completes⟩
        · exact absurd completes (not_completesAttempt_of_not_ends (noEndings completion new) _ _)
      have raised : ∃ escalationId, ∃ event ∈ before,
          raisesFor record.stepId escalationId event := by
        by_contra unraised
        refine tidy.reviews cares ⟨record, member, asked, completedBefore, ?_⟩
        rintro ⟨escalationId, _, _, later, logEq, _, inOrder⟩
        obtain ⟨event, eventMember, raises⟩ := inOrder_singleton.mp inOrder
        refine unraised ⟨escalationId, event, ?_, raises⟩
        rw [beforeEq, logEq]
        simp [eventMember]
      have nonempty : before ≠ [] := by
        rintro rfl
        obtain ⟨_, found, _⟩ := raised.choose_spec
        cases found
      obtain ⟨runBefore, legal⟩ := nextRun.legal_of_split before event after split nonempty
      have known := known_of_completed noRequeue consistent.run completedBefore
      have done := done_of_mustWait noRequeue legal known waits
      obtain ⟨escalationId, raised⟩ := raised
      exact ⟨escalationId, closed_of_done noRequeue runBefore known done raised⟩
    · have isGated := gated_of_mustWait waits
      rw [ungated event eventListed] at isGated
      cases isGated
  rcases List.append_eq_append_iff.mp split with
    ⟨early, beforeEq, batchEq⟩ | ⟨late, logEq, afterEq⟩
  · exact inBatch early beforeEq batchEq
  · cases late with
    | nil => exact inBatch [] (by simpa using logEq.symm) (by simpa using afterEq.symm)
    | cons first late =>
      obtain ⟨rfl, rfl⟩ := List.cons.inj afterEq
      rcases List.mem_append.mp listed with old | new
      · exact held record member asked ⟨completion, old, completes⟩ before event late logEq waits
      · have never := not_completes_of_mustWait noRequeue nextRun split waits completion
          (List.mem_append_right _ new)
        rw [completes_of_completesAttempt completes] at never
        cases never

end Commit

/-- Nobody is interrupted while a review is owed. -/
def KeepsReviews (world : World) (residual : Code (Option DriveReport)) : Prop :=
  Interrupted residual → ¬ ReviewOwed world

theorem keepsReviews_of_not_interrupted (ended : ¬ Interrupted residual) :
    KeepsReviews world residual :=
  fun interrupted => absurd interrupted ended

/-- Nothing runs past a review that was asked for. -/
theorem reviews_held (noRequeue : setting.NoRequeue)
    (reachable : Reachable setting KeepsReviews world) :
    ReviewsHeld setting.definition world := by
  have quiet := not_requeues_of_noRequeue noRequeue
  have leaves : LeavesTidy setting ⟨False, True, False, False⟩ KeepsReviews :=
    fun _ _ ends interrupted => ⟨False.elim, fun _ => ends interrupted, False.elim⟩
  refine law_of_reachable (ReviewsHeld setting.definition) leaves (fun _ => quiet) False.elim ?_ ?_
    reachable
  · rintro world ⟨event, clock, issued, _, _, _, rfl⟩ record ⟨⟩
  · intro world op response next held conduct answered
    cases change_of_answers answered with
    | none log attempts =>
        unfold ReviewsHeld
        rw [log, attempts]
        exact held
    | committed committed =>
        obtain ⟨consistent, proper⟩ := conduct
        exact held.commit trivial quiet consistent (proper (commit_eq_ok committed).2.1) committed
    | called | recorded | resolved => exact held
    | @noted mark =>
        cases mark with
        | policyApplied => exact held
        | attemptFinished stepId attempt outcome =>
            obtain ⟨consistent, running⟩ := conduct
            refine forall_mem_concat held fun asked completed => ?_
            obtain ⟨event, listed, completes⟩ := completed
            have never := not_completes_of_running quiet consistent.run running.1 event listed
            rw [completes_of_completesAttempt completes] at never
            cases never

/-- A letter is drafted and sent. -/
def letterWorkflow : WorkflowDefinition where
  workflowId := "letter"
  version := "1.0.0"
  steps :=
    [{ stepId := "draft", agentType := "writer" },
      { stepId := "send", agentType := "sender", dependencies := ["draft"] }]
  valid := rfl

def letterSetting : Setting :=
  .withoutRequeue letterWorkflow

/-- A drive whose steps ask for a review. -/
def reviewedDrive : Actor :=
  driveWith letterSetting
    (.perform (.requestReview {}) fun _ => .done { output := Dict.empty })

/-- The draft waits for its review. -/
def draftHeld : World :=
  executeAll letterSetting {} [(80, reviewedDrive)] (.opened letterSetting none)

/-- The draft has been approved, and the letter is sent. -/
def letterSent : World :=
  executeAll letterSetting {}
    [(20, .resolve
        { escalationId := draftHeld.escalationIds.headD "", tenantId := "tenant",
          resolution := .approve, resolvedBy := "reviewer" }),
      (80, reviewedDrive)]
    draftHeld

theorem reviews_held_letterSent :
    (∃ record ∈ letterSent.attempts, record.stepId = "draft" ∧
      record.outcome.review.isSome = true) ∧
      (letterSent.log.filterMap fun event => startedStep event.payload) = ["draft", "send"] ∧
      ReviewsHeld letterWorkflow letterSent := by
  refine ⟨by decide +kernel, by decide +kernel, ?_⟩
  have held : Reachable letterSetting KeepsReviews draftHeld :=
    (reachable_opened letterSetting _ none).executeAll
      ⟨rfl, keepsReviews_of_not_interrupted (by decide +kernel), trivial⟩
  have sent : Reachable letterSetting KeepsReviews letterSent :=
    held.executeAll ⟨rfl, keepsReviews_of_not_interrupted (by decide +kernel), rfl,
      keepsReviews_of_not_interrupted (by decide +kernel), trivial⟩
  exact reviews_held (noRequeue_withoutRequeue _) sent

/-- The attempt that the event completes. -/
def completedAttempt : Payload → Option (String × Nat)
  | .stepCompleted stepId attempt _ _ => some (stepId, attempt)
  | _ => none

private theorem completesAttempt_of_completedAttempt
    (found : completedAttempt event.payload = some (stepId, attempt)) :
    completesAttempt stepId attempt event := by
  cases payload : event.payload with
  | stepCompleted =>
    rw [payload] at found
    cases found
    exact ⟨_, _, payload⟩
  | _ => simp [payload, completedAttempt] at found

private theorem starts_of_startedStep
    (found : startedStep payload = some stepId) : starts payload stepId := by
  cases payload with
  | stepStarted =>
    cases found
    rfl
  | _ => cases found

/-- A worker has died right after it has recorded the draft. -/
def draftRecorded : World :=
  executeAll letterSetting {} [(17, reviewedDrive)] (.opened letterSetting none)

/-- Another worker has taken over. -/
def draftSent : World :=
  executeAll letterSetting {} [(80, reviewedDrive)] draftRecorded

theorem reachable_draftRecorded : Reachable letterSetting anywhere draftRecorded :=
  (reachable_opened letterSetting anywhere none).executeAll ⟨rfl, trivial, trivial⟩

/-- The draft is sent although its review was asked for and never raised. -/
theorem review_lost_after_crash :
    (execute letterSetting {} 16 reviewedDrive (.opened letterSetting none)).1.log.length <
        draftRecorded.log.length ∧
      Reachable letterSetting anywhere draftSent ∧ ¬ ReviewsHeld letterWorkflow draftSent := by
  refine ⟨by decide +kernel, reachable_draftRecorded.executeAll ⟨rfl, trivial, trivial⟩, ?_⟩
  have asked : ∃ record ∈ draftSent.attempts, record.stepId = "draft" ∧ record.attempt = 1 ∧
      record.outcome.review.isSome = true := by decide +kernel
  have completed : ∃ event ∈ draftSent.log,
      completedAttempt event.payload = some ("draft", 1) := by decide +kernel
  have started : ((draftSent.log.drop 6).head?.bind fun event => startedStep event.payload) =
      some "send" := by decide +kernel
  have unraised : ∀ event ∈ draftSent.log.take 6, raises event.payload = false := by
    decide +kernel
  generalize draftSent = world at *
  intro held
  obtain ⟨record, member, sameStep, sameAttempt, review⟩ := asked
  obtain ⟨completion, listed, completes⟩ := completed
  cases rest : world.log.drop 6 with
  | nil => simp [rest] at started
  | cons event after =>
      rw [rest] at started
      have split : world.log = world.log.take 6 ++ event :: after := by
        rw [← rest, List.take_append_drop]
      have waits : MustWait letterWorkflow record.stepId event := by
        rw [sameStep]
        exact .inl ⟨_, List.mem_cons_of_mem _ List.mem_cons_self, List.mem_cons_self,
          starts_of_startedStep started⟩
      have recorded : ∃ event ∈ world.log, completesAttempt record.stepId record.attempt event := by
        rw [sameStep, sameAttempt]
        exact ⟨completion, listed, completesAttempt_of_completedAttempt completes⟩
      obtain ⟨escalationId, before, raise, _, early, ⟨escalation, payload, _⟩, _⟩ :=
        held record member review recorded _ event after split waits
      have none := unraised raise (by rw [early]; simp)
      rw [payload] at none
      cases none

/-! ## Model calls -/

/-- Two answered model calls of a step with the same position within their
attempts have a failure of the step between them. -/
def CallsSeparated (world : World) : Prop :=
  EachAt (fun earlier record => ∀ old ∈ earlier, old.call.stepId = record.call.stepId →
    old.call.index = record.call.index →
      ∃ event ∈ (world.log.take record.position).drop old.position,
        fails event.payload record.call.stepId = true) world.modelCalls

/-- The log tells how the attempts of earlier calls have ended. -/
def CallsReported (world : World) : Prop :=
  ∀ record ∈ world.modelCalls, record.position < world.log.length →
    ∃ event ∈ world.log.drop record.position, endsAttempt event.payload record.call.stepId

/-- At no point of the log has a step been charged more often than its model
calls had been answered before. -/
def ChargesCovered (world : World) : Prop :=
  ∀ stepId count, (world.log.take count).countP (fun event => bills event.payload stepId) ≤
    world.modelCalls.countP fun record => record.position < count ∧ record.call.stepId = stepId

section Calls

variable {care : Care} {next : World} {instanceId tenantId : String} {drafts : List Event}
  {version : Nat}

/-- An append reports the calls since the one before. -/
theorem CallsReported.commit (reported : CallsReported world)
    (consistent : Consistent setting world) (cares : care.calls)
    (proper : Proper setting care world (resequence version drafts))
    (committed : world.commit setting instanceId tenantId drafts version = .ok next) :
    CallsReported next := by
  obtain ⟨_, _, _, _, _, rfl⟩ := commit_eq_ok committed
  intro record member _
  have before := consistent.positions record member
  rw [List.drop_append_of_le_length before]
  rcases lt_or_eq_of_le before with earlier | now
  · obtain ⟨event, listed, ended⟩ := reported record member earlier
    exact ⟨event, List.mem_append_left _ listed, ended⟩
  · obtain ⟨event, listed, ended⟩ := proper.reports cares record member now
    exact ⟨event, List.mem_append_right _ listed, ended⟩

/-- What separates two calls stays where it is. -/
theorem CallsSeparated.commit (separated : CallsSeparated world)
    (consistent : Consistent setting world)
    (committed : world.commit setting instanceId tenantId drafts version = .ok next) :
    CallsSeparated next := by
  obtain ⟨_, _, _, _, _, rfl⟩ := commit_eq_ok committed
  intro earlier record later split old member sameStep sameIndex
  have listed : record ∈ world.modelCalls := by
    rw [show world.modelCalls = _ from split]
    simp
  rw [List.take_append_of_le_length (consistent.positions record listed)]
  exact separated earlier record later split old member sameStep sameIndex

/-- The calls before an append and those just before it. -/
private theorem countP_calls_add_le {count later : Nat} (increases : count < later)
    (calls : List CallRecord) :
    calls.countP (fun record => record.position < count ∧ record.call.stepId = stepId) +
        calls.countP (fun record => record.position = count ∧ record.call.stepId = stepId) ≤
      calls.countP fun record => record.position < later ∧ record.call.stepId = stepId := by
  induction calls with
  | nil => exact le_refl 0
  | cons record rest ih =>
    by_cases same : record.call.stepId = stepId
    · simp only [List.countP_cons, same, and_true, decide_eq_true_eq] at ih ⊢
      split_ifs <;> omega
    · simpa [List.countP_cons, same] using ih

/-- Creating an instance charges nothing. -/
theorem ChargesCovered.genesis {clock : Time} {issued : List String}
    (isGenesis : event.isGenesis = true) :
    ChargesCovered { log := [event], clock := clock, issued := issued } := by
  intro stepId count
  refine (List.take_sublist count [event]).countP_le.trans ?_
  unfold Event.isGenesis at isGenesis
  cases payload : event.payload <;> simp [payload, bills] at isGenesis ⊢

/-- An append charges no more than the calls since the one before. -/
theorem ChargesCovered.commit (covered : ChargesCovered world) (billed : Billed world
      (resequence version drafts))
    (committed : world.commit setting instanceId tenantId drafts version = .ok next) :
    ChargesCovered next := by
  obtain ⟨_, _, _, _, _, rfl⟩ := commit_eq_ok committed
  intro stepId count
  change ((world.log ++ resequence version drafts).take count).countP _ ≤ _
  rcases le_or_gt count world.log.length with earlier | later
  · rw [List.take_append_of_le_length earlier]
    exact covered stepId count
  · have before := covered stepId world.log.length
    rw [List.take_length] at before
    rw [List.take_append, List.take_of_length_le later.le, List.countP_append]
    calc _ ≤ _ := Nat.add_le_add before
            (((List.take_sublist _ _).countP_le).trans (billed stepId))
      _ ≤ _ := countP_calls_add_le later world.modelCalls

theorem ChargesCovered.called (covered : ChargesCovered world) (record : CallRecord) :
    ChargesCovered { world with modelCalls := world.modelCalls ++ [record] } := by
  intro stepId count
  refine (covered stepId count).trans ?_
  exact (List.sublist_append_left _ _).countP_le

private theorem completes_or_fails (ended : endsAttempt payload stepId) :
    completes payload stepId = true ∨ fails payload stepId = true := by
  cases payload with
  | stepCompleted => exact .inl (decide_eq_true ended)
  | stepFailed => exact .inr (decide_eq_true ended)
  | _ => exact ended.elim

/-- A new call repeats an old one only after the step has failed. -/
theorem CallsSeparated.called (separated : CallsSeparated world) (reported : CallsReported world)
    (noRequeue : ¬ (rulesOf setting).requeues) (consistent : Consistent setting world)
    {call : ModelCall} (running : Running world call.stepId call.attempt)
    (first : ∀ record ∈ world.modelCalls, record.position = world.log.length →
      record.call.stepId = call.stepId → record.call.index < call.index) : CallsSeparated
      { world with modelCalls := world.modelCalls ++ [⟨call, world.log.length⟩] } := by
  refine eachAt_concat.mpr ⟨separated, ?_⟩
  intro old member sameStep sameIndex
  change ∃ event ∈ (world.log.take world.log.length).drop old.position, _
  rw [List.take_length]
  rcases lt_or_eq_of_le (consistent.positions old member) with earlier | now
  · obtain ⟨event, listed, ended⟩ := reported old member earlier
    rw [sameStep] at ended
    rcases completes_or_fails ended with completed | failed
    · have uncompleted := not_completes_of_running noRequeue consistent.run running.1 event
        (List.mem_of_mem_drop listed)
      change completes event.payload call.stepId = true at completed
      rw [uncompleted] at completed
      cases completed
    · exact ⟨event, listed, failed⟩
  · have smaller := first old member now sameStep
    change old.call.index = call.index at sameIndex
    omega

end Calls

instance (world : World) : Decidable (CallOwed world) :=
  inferInstanceAs (Decidable (∃ record ∈ world.modelCalls, record.position = world.log.length))

/-- A drive whose step asks the model once. -/
def asking (rest : RunnerCode) : Actor :=
  driveWith fetchSetting (.perform (.llm { messages := [] }) fun _ => rest)

end AgentForge.Guarantees
