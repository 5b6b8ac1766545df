import AgentForge.Refinement.Wave

/-!
# Settling a wave

The driver records how the attempts of a wave ended, schedules retries and
raises reviews, in three appends.  Between them debts stand open; after the
last one they are settled.
-/

namespace AgentForge.Refinement

open Domain Events Library Engine Protocol

variable {setting : Setting} {care : Care} {world next : World} {inst : WorkflowInstance}

variable {result : AttemptResult} {payload : Payload} {results : List AttemptResult}
  {stepId : String} {attempt : Nat} {now : Time} {config : Config}

/-! ## Recording the results -/

/-- What a result reports besides its outcome. -/
def notesOf (result : AttemptResult) : List Payload :=
  result.outcome.llmRecordings.map (.llmCallRecorded result.stepId result.attempt) ++
    result.outcome.charges.map (fun charge =>
      .costCharged (some result.stepId) charge.amountUsd charge.model charge.tokensInput
        charge.tokensOutput) ++
    result.outcome.effects.flatMap (effectPayloads result.stepId)

theorem note_of_mem_notesOf
    (listed : payload ∈ notesOf result) : Note result.stepId result.attempt payload := by
  rcases List.mem_append.mp listed with listed | effect
  · rcases List.mem_append.mp listed with recorded | charged
    · obtain ⟨recording, _, rfl⟩ := List.mem_map.mp recorded
      exact .llmCall recording
    · obtain ⟨charge, _, rfl⟩ := List.mem_map.mp charged
      exact .charge _ _ _ _
  · obtain ⟨outcome, _, mine⟩ := List.mem_flatMap.mp effect
    rcases List.mem_append.mp mine with intended | executed
    · split at intended
      · cases intended
      · rw [List.mem_singleton] at intended
        subst intended
        exact .effectIntended _ _ _ _
    · rw [List.mem_singleton] at executed
      subst executed
      exact .effectExecuted _ _ _

theorem outcome_outcomePayload (result : AttemptResult) :
    Outcome result.stepId result.attempt (outcomePayload result) := by
  unfold outcomePayload
  cases result.outcome with
  | success success => exact .completed _ _
  | failure failure => exact .failed _ _ _

/-- A payload of a result is a note or its outcome. -/
theorem mem_resultPayloads (listed : payload ∈ results.flatMap resultPayloads) :
    ∃ result ∈ results, Note result.stepId result.attempt payload ∨
      payload = outcomePayload result := by
  obtain ⟨result, member, mine⟩ := List.mem_flatMap.mp listed
  refine ⟨result, member, ?_⟩
  rcases List.mem_append.mp mine with note | outcome
  · exact .inl (note_of_mem_notesOf note)
  · exact .inr (List.mem_singleton.mp outcome)

private theorem outcomePayload_mem
    (member : result ∈ results) : outcomePayload result ∈ results.flatMap resultPayloads :=
  List.mem_flatMap.mpr ⟨result, member, List.mem_append_right _ (List.mem_singleton_self _)⟩

private theorem plain_of_note (note : Note stepId attempt payload) :
    quiet payload = true ∧ gated payload = false ∧ ∀ other, ¬ starts payload other := by
  cases note <;> exact ⟨rfl, rfl, fun _ => id⟩

private theorem plain_of_outcome (outcome : Outcome stepId attempt payload) :
    quiet payload = true ∧ gated payload = false ∧ ∀ other, ¬ starts payload other := by
  cases outcome <;> exact ⟨rfl, rfl, fun _ => id⟩

private theorem endsAttempt_of_outcome
    (outcome : Outcome stepId attempt payload) : endsAttempt payload stepId := by
  cases outcome <;> rfl

private theorem plain_of_mem_results : ∀ payload ∈ results.flatMap resultPayloads,
      quiet payload = true ∧ gated payload = false ∧ ∀ other, ¬ starts payload other := by
  intro payload listed
  obtain ⟨result, _, note | rfl⟩ := mem_resultPayloads listed
  · exact plain_of_note note
  · exact plain_of_outcome (outcome_outcomePayload result)

/-- The results of the wave are in the log. -/
structure WaveRecorded (setting : Setting) (care : Care) (head world : World)
    (results : List AttemptResult) : Prop
    extends Underway setting care head world (results.map AttemptResult.stepId) where
  step : ∀ result ∈ results, result.step ∈ setting.definition.steps ∧
    result.step.stepId = result.stepId
  completed : ∀ result ∈ results, ∀ success, result.outcome = .success success →
    ((replay world.log).steps result.stepId).status = .completed
  failed : ∀ result ∈ results, ∀ failure, result.outcome = .failure failure →
    ((replay world.log).steps result.stepId).status = .failed
  undone : ¬ (rulesOf setting).requeues → ∀ result ∈ results, ∀ step ∈ setting.definition.steps,
    result.stepId ∈ step.dependencies → ¬ (replay world.log).Started step.stepId
  older : ¬ (rulesOf setting).requeues → ∀ result ∈ results, ∀ record ∈ head.attempts,
    record.stepId = result.stepId → record.attempt < result.attempt
  counted : ∀ result ∈ results,
    ((replay world.log).steps result.stepId).attempts = result.attempt
  scheduled : ∀ result ∈ results, ((replay world.log).steps result.stepId).nextRetryAt = none ∨
    result.attempt ≤ result.step.retryPolicy.maxRetries
  oldFailures : ∀ stepId ∉ results.map AttemptResult.stepId,
    lastFailure world.log stepId = lastFailure head.log stepId
  newFailures : ∀ result ∈ results, ∀ failure, result.outcome = .failure failure →
    lastFailure world.log result.stepId = some (result.attempt, failure.retryable)
  oldCompletions : ∀ event ∈ world.log, ∀ stepId attempt, completesAttempt stepId attempt event →
    event ∈ head.log ∨ ∃ result ∈ results, result.stepId = stepId ∧ result.attempt = attempt
  newCompletions : ∀ result ∈ results, ∀ success, result.outcome = .success success →
    ∃ event ∈ world.log, completesAttempt result.stepId result.attempt event
  grown : ∃ more, world.log = head.log ++ more
  attempts : ∀ record ∈ world.attempts, record ∈ head.attempts ∨
    ∃ result ∈ results, record = recordOf result
  calls : ∀ record ∈ world.modelCalls, record.position < world.log.length

section Record

variable {head : World} {results : List AttemptResult} {time : Time} {batch : List Event}

/-- The batch of the results is legal, and leads to the states they ask for. -/
private theorem WaveEnded.legal (ended : WaveEnded setting care head world results)
    (drafted : Drafted (rulesOf setting) time (results.flatMap resultPayloads) batch) :
    LegalBatch (rulesOf setting) (replay world.log) batch ∧ ((replay world.log).AcceptsAll batch →
        Untouched (results.map AttemptResult.stepId) (replay world.log)
            ((replay world.log).afterAll batch) ∧
          ∀ result ∈ results, ((replay world.log).afterAll batch).steps result.stepId =
            endedView (outcomePayload result) ((replay world.log).steps result.stepId)) := by
  refine legal_results ended.nodup ?_ (fun _ _ _ listed => note_of_mem_notesOf listed)
    (fun result _ => outcome_outcomePayload result) drafted
  intro result listed
  obtain ⟨member, same⟩ := ended.step result listed
  exact ⟨same ▸ List.mem_map_of_mem member, ended.running result listed⟩

/-- The charges among the payloads of a result are its own. -/
private theorem countP_resultPayloads (result : AttemptResult) (stepId : String) :
    (resultPayloads result).countP (bills · stepId) =
      if result.stepId = stepId then result.outcome.charges.length else 0 := by
  have effects (effect : EffectOutcome) :
      (effectPayloads result.stepId effect).countP (bills · stepId) = 0 := by
    unfold effectPayloads
    split <;> rfl
  have ended : bills (outcomePayload result) stepId = false := by
    unfold outcomePayload
    cases result.outcome <;> rfl
  have called (call : LLMRecording) :
      bills (.llmCallRecorded result.stepId result.attempt call) stepId = false := rfl
  have charged (charge : CostEntry) : bills (.costCharged (some result.stepId) charge.amountUsd
      charge.model charge.tokensInput charge.tokensOutput) stepId =
        decide (result.stepId = stepId) := rfl
  simp only [resultPayloads, List.countP_append, List.countP_flatMap, List.countP_map,
    Function.comp_def, effects, called, charged, List.countP_singleton, ended]
  by_cases same : result.stepId = stepId <;> simp [same]

/-- A wave with one attempt of a step charges what that attempt has cost. -/
private theorem countP_results_le {bound : Nat} (nodup : (results.map AttemptResult.stepId).Nodup)
    (within : ∀ result ∈ results, result.stepId = stepId → result.outcome.charges.length ≤ bound) :
    (results.flatMap resultPayloads).countP (bills · stepId) ≤ bound := by
  induction results with
  | nil => exact Nat.zero_le _
  | cons result rest ih =>
    obtain ⟨fresh, restNodup⟩ := List.nodup_cons.mp nodup
    rw [List.flatMap_cons, List.countP_append, countP_resultPayloads]
    by_cases same : result.stepId = stepId
    · have others : (rest.flatMap resultPayloads).countP (bills · stepId) = 0 := by
        rw [List.countP_flatMap, List.sum_eq_zero]
        intro count counted
        obtain ⟨other, listed, rfl⟩ := List.mem_map.mp counted
        refine (countP_resultPayloads other stepId).trans (if_neg fun also => fresh ?_)
        exact List.mem_map.mpr ⟨other, listed, also.trans same.symm⟩
      rw [if_pos same, others]
      exact within result List.mem_cons_self same
    · rw [if_neg same, Nat.zero_add]
      exact ih restNodup fun other listed => within other (List.mem_cons_of_mem _ listed)

private theorem WaveEnded.proper (ended : WaveEnded setting care head world results)
    (drafted : Drafted (rulesOf setting) time (results.flatMap resultPayloads) batch) :
    Proper setting care world batch := by
  constructor
  case sound =>
    exact sound_of_running ended.consistent ended.runs (ended.legal drafted).1 drafted
      fun payload listed => (plain_of_mem_results payload listed).1
  case held =>
    right
    exact drafted.forall_mem fun payload listed => (plain_of_mem_results payload listed).2.1
  case reports =>
    intro _ record member now
    obtain ⟨result, listed, same⟩ := List.mem_map.mp (ended.calls record member now)
    obtain ⟨event, eventMember, payload⟩ := drafted.exists_mem (outcomePayload_mem listed)
    refine ⟨event, eventMember, ?_⟩
    rw [payload, ← same]
    exact endsAttempt_of_outcome (outcome_outcomePayload result)
  case billed =>
    intro cares stepId
    have counted := countP_results_le ended.nodup fun result listed (same : _ = stepId) =>
      same ▸ ended.billed cares result listed
    rw [← drafted.payloads, List.countP_map] at counted
    exact counted

private theorem failedAttempt_of_result {reported : Nat × Bool}
    (mine : Note result.stepId result.attempt payload ∨ payload = outcomePayload result)
    (found : failedAttempt payload stepId = some reported) :
    result.stepId = stepId ∧ ∃ failure, result.outcome = .failure failure ∧
      reported = (result.attempt, failure.retryable) := by
  rcases mine with note | rfl
  · cases note <;> cases found
  · unfold outcomePayload at found
    cases outcome : result.outcome with
    | success success => simp [outcome, failedAttempt] at found
    | failure failure =>
      simp only [outcome, failedAttempt] at found
      split at found
      · cases found
        exact ⟨‹_›, failure, rfl, rfl⟩
      · cases found

private theorem completesAttempt_of_result {event : Event}
    (mine : Note result.stepId result.attempt event.payload ∨
      event.payload = outcomePayload result) (completes : completesAttempt stepId attempt event) :
    result.stepId = stepId ∧ result.attempt = attempt := by
  obtain ⟨output, modelUsed, payload⟩ := completes
  rw [payload] at mine
  rcases mine with note | same
  · cases note
  · unfold outcomePayload at same
    cases outcome : result.outcome with
    | success success =>
      simp only [outcome] at same
      cases same
      exact ⟨rfl, rfl⟩
    | failure failure => simp [outcome] at same

private theorem eq_of_stepId_eq {first second : AttemptResult}
    (nodup : (results.map AttemptResult.stepId).Nodup) (firstListed : first ∈ results)
    (secondListed : second ∈ results) (same : first.stepId = second.stepId) : first = second :=
  List.inj_on_of_nodup_map nodup firstListed secondListed same

/-- Appending the results records them. -/
private theorem WaveEnded.recorded (ended : WaveEnded setting care head world results)
    (drafted : Drafted (rulesOf setting) time (results.flatMap resultPayloads) batch)
    (accepted : (replay world.log).AcceptsAll batch) (consistent : Consistent setting next)
    (appended : Appended world batch next) : WaveRecorded setting care head next results := by
  obtain ⟨untouched, ends⟩ := (ended.legal drafted).2 accepted
  rw [← appended.replay] at untouched ends
  obtain ⟨earlier, grown, _, noEndings⟩ := ended.log
  have log : next.log = head.log ++ (earlier ++ batch) := by
    obtain ⟨rows, rfl⟩ := appended
    rw [← List.append_assoc, ← grown]
  have mine : ∀ event ∈ batch, ∃ result ∈ results,
      Note result.stepId result.attempt event.payload ∨ event.payload = outcomePayload result :=
    drafted.forall_mem fun payload listed => mem_resultPayloads listed
  have started (stepId : String) :
      (replay next.log).Started stepId ↔ (replay world.log).Started stepId := by
    rw [appended.replay]
    exact started_afterAll_iff
      (drafted.forall_mem fun payload listed => (plain_of_mem_results payload listed).2.2)
  constructor
  case toUnderway =>
    refine { ended with consistent := consistent, runs := ?_, untouched := ?_, escalations := ?_ }
    · exact untouched.status.trans ended.runs
    · intro stepId notListed
      rw [untouched.steps stepId notListed]
      exact ended.untouched stepId notListed
    · exact untouched.escalations.trans ended.escalations
  case step => exact ended.step
  case completed =>
    intro result listed success outcome
    rw [ends result listed, outcomePayload, outcome]
    rfl
  case failed =>
    intro result listed failure outcome
    rw [ends result listed, outcomePayload, outcome]
    rfl
  case undone =>
    intro noRequeue result listed step member depends
    rw [started]
    intro isStarted
    have settled := ended.consistent.run.invariant.depsSettled noRequeue step member isStarted
      result.stepId depends
    have running := (ended.running result listed).1
    unfold State.Done at settled
    simp [running] at settled
  case older => exact ended.older
  case counted =>
    intro result listed
    rw [ends result listed, attempts_endedView]
    exact (ended.running result listed).2
  case scheduled =>
    intro result listed
    left
    rw [ends result listed, nextRetryAt_endedView]
    exact ended.consistent.run.unscheduled_of_running (ended.running result listed).1
  case oldFailures =>
    intro stepId notListed
    rw [log]
    apply lastFailure_append_of_none
    intro event member
    rcases List.mem_append.mp member with early | late
    · exact failedAttempt_of_not_ends (noEndings event early) stepId
    · obtain ⟨result, listed, isMine⟩ := mine event late
      by_contra found
      obtain ⟨reported, reports⟩ := Option.ne_none_iff_exists'.mp found
      exact notListed (List.mem_map.mpr
        ⟨result, listed, (failedAttempt_of_result isMine reports).1⟩)
  case newFailures =>
    intro result listed failure outcome
    rw [log]
    apply lastFailure_append_of_all
    · intro event member reported reports
      rcases List.mem_append.mp member with early | late
      · rw [failedAttempt_of_not_ends (noEndings event early)] at reports
        cases reports
      · obtain ⟨other, otherListed, isMine⟩ := mine event late
        obtain ⟨same, failure', outcome', rfl⟩ := failedAttempt_of_result isMine reports
        obtain rfl := eq_of_stepId_eq ended.nodup otherListed listed same
        rw [outcome] at outcome'
        cases outcome'
        rfl
    · obtain ⟨event, member, payload⟩ := drafted.exists_mem (outcomePayload_mem listed)
      refine ⟨event, List.mem_append_right _ member, ?_⟩
      rw [payload, outcomePayload, outcome]
      exact if_pos rfl
  case oldCompletions =>
    intro event member stepId attempt completes
    rw [log] at member
    rcases List.mem_append.mp member with old | new
    · exact .inl old
    · rcases List.mem_append.mp new with early | late
      · exact absurd completes (not_completesAttempt_of_not_ends (noEndings event early) _ _)
      · obtain ⟨result, listed, isMine⟩ := mine event late
        exact .inr ⟨result, listed, completesAttempt_of_result isMine completes⟩
  case newCompletions =>
    intro result listed success outcome
    obtain ⟨event, member, payload⟩ := drafted.exists_mem (outcomePayload_mem listed)
    refine ⟨event, by rw [log]; simp [member], success.output, success.modelUsed, ?_⟩
    rw [payload, outcomePayload, outcome]
  case grown => exact ⟨_, log⟩
  case attempts =>
    obtain ⟨rows, rfl⟩ := appended
    exact ended.attempts
  case calls =>
    intro record member
    have nonempty : batch ≠ [] := by
      rintro rfl
      obtain ⟨result, rest, rfl⟩ := List.exists_cons_of_ne_nil ended.nonempty
      obtain ⟨_, absent, _⟩ := drafted.exists_mem (outcomePayload_mem List.mem_cons_self)
      cases absent
    have longer := List.length_pos_iff.mpr nonempty
    obtain ⟨rows, rfl⟩ := appended
    have before := ended.consistent.positions record member
    rw [List.length_append]
    omega

/-! ## Scheduling retries -/

/-- The attempt has earned a retry. -/
def retryDue (result : AttemptResult) : Bool :=
  match result.outcome with
  | .success _ => false
  | .failure failure =>
      failure.retryable && result.attempt ≤ result.step.retryPolicy.maxRetries

theorem le_of_retryDue (due : retryDue result = true) :
    result.attempt ≤ result.step.retryPolicy.maxRetries := by
  unfold retryDue at due
  cases outcome : result.outcome with
  | success success => simp [outcome] at due
  | failure failure =>
    simp only [outcome, Bool.and_eq_true, decide_eq_true_eq] at due
    exact due.2

/-- When the retry of an attempt is due. -/
def retryTime (now : Time) (result : AttemptResult) : Time :=
  now + result.step.retryPolicy.backoffDelay result.attempt

theorem filterMap_retryPayload (now : Time) (results : List AttemptResult) :
    results.filterMap (retryPayload now) = (results.filter retryDue).map fun result =>
      .stepRetryScheduled result.stepId (result.attempt + 1) (retryTime now result) := by
  rw [← List.filterMap_eq_map, List.filterMap_filter]
  congr 1
  funext result
  unfold retryPayload retryDue retryTime
  cases result.outcome with
  | success success => rfl
  | failure failure =>
    by_cases due : (failure.retryable &&
        decide (result.attempt ≤ result.step.retryPolicy.maxRetries)) = true
    · simp [due]
    · simp [due]

variable (recorded : WaveRecorded setting care head world results)

include recorded

variable (drafted : Drafted (rulesOf setting) time (results.filterMap (retryPayload now)) batch)

include drafted

/-- The batch of the retries is legal. -/
private theorem WaveRecorded.legalRetries :
    LegalBatch (rulesOf setting) (replay world.log) batch ∧ ((replay world.log).AcceptsAll batch →
        Untouched ((results.filter retryDue).map AttemptResult.stepId) (replay world.log)
            ((replay world.log).afterAll batch) ∧ ∀ result ∈ results.filter retryDue,
            ((replay world.log).afterAll batch).steps result.stepId =
              { (replay world.log).steps result.stepId with
                nextRetryAt := some (retryTime now result) }) := by
  rw [filterMap_retryPayload] at drafted
  refine legal_retries ?_ ?_ drafted
  · exact recorded.nodup.sublist (List.filter_sublist.map _)
  · intro result listed
    obtain ⟨inResults, due⟩ := List.mem_filter.mp listed
    obtain ⟨member, same⟩ := recorded.step result inResults
    refine ⟨same ▸ List.mem_map_of_mem member, ?_⟩
    cases outcome : result.outcome with
    | success success => simp [retryDue, outcome] at due
    | failure failure => exact recorded.failed result inResults failure outcome

omit drafted in
omit recorded in
private theorem plain_of_mem_retries : ∀ payload ∈ results.filterMap (retryPayload now),
      quiet payload = true ∧ gated payload = false ∧ ends payload = false ∧
        ∀ other, ¬ starts payload other := by
  intro payload listed
  rw [filterMap_retryPayload] at listed
  obtain ⟨result, _, rfl⟩ := List.mem_map.mp listed
  exact ⟨rfl, rfl, rfl, fun _ => id⟩

omit drafted in
theorem WaveRecorded.idle (idle : Idle setting world next) :
    WaveRecorded setting care head next results := by
  have consistent := recorded.consistent.idle idle
  obtain ⟨clock, issued, rfl, _, _⟩ := idle
  exact { recorded with consistent := consistent }

omit drafted in
private theorem WaveRecorded.reports (batch : List Event) : Reports world batch :=
  fun record member now => absurd now (recorded.calls record member).ne

private theorem WaveRecorded.properRetries : Proper setting care world batch := by
  constructor
  case sound =>
    exact sound_of_running recorded.consistent recorded.runs (recorded.legalRetries drafted).1
      drafted fun payload listed => (plain_of_mem_retries payload listed).1
  case held =>
    right
    exact drafted.forall_mem fun payload listed => (plain_of_mem_retries payload listed).2.1
  case reports => exact fun _ => recorded.reports batch
  case billed =>
    have noEndings : NoEndings batch := drafted.forall_mem fun payload listed =>
      (plain_of_mem_retries payload listed).2.2.1
    exact fun _ => noEndings.billed world

omit drafted in
/-- A batch without endings and starts that leaves the statuses of the steps
alone keeps the results recorded. -/
private theorem WaveRecorded.append (consistent : Consistent setting next)
    (appended : Appended world batch next) (runs : (replay next.log).status = .running)
    (statuses : ∀ result ∈ results, ((replay next.log).steps result.stepId).status = ((replay
      world.log).steps result.stepId).status ∧ ((replay next.log).steps result.stepId).attempts =
      ((replay world.log).steps result.stepId).attempts)
    (scheduled : ∀ result ∈ results, ((replay next.log).steps result.stepId).nextRetryAt = none ∨
      result.attempt ≤ result.step.retryPolicy.maxRetries)
    (untouched : ∀ stepId ∉ results.map AttemptResult.stepId, (replay next.log).steps stepId =
      (replay world.log).steps stepId)
    (escalations : (replay next.log).escalations = (replay world.log).escalations)
    (noEndings : NoEndings batch)
    (noStarts : ∀ event ∈ batch, ∀ other, ¬ starts event.payload other) :
    WaveRecorded setting care head next results := by
  have started (stepId : String) :
      (replay next.log).Started stepId ↔ (replay world.log).Started stepId := by
    rw [appended.replay]
    exact started_afterAll_iff noStarts
  obtain ⟨rows, rfl⟩ := appended
  have failures (stepId : String) :
      lastFailure (world.log ++ batch) stepId = lastFailure world.log stepId :=
    lastFailure_append_of_none fun event member =>
      failedAttempt_of_not_ends (noEndings event member) stepId
  constructor
  case toUnderway =>
    refine { recorded with
      consistent := consistent, runs := runs, untouched := ?_, escalations := ?_ }
    · intro stepId notListed
      rw [untouched stepId notListed]
      exact recorded.untouched stepId notListed
    · exact escalations.trans recorded.escalations
  case step => exact recorded.step
  case completed =>
    intro result listed success outcome
    rw [(statuses result listed).1]
    exact recorded.completed result listed success outcome
  case failed =>
    intro result listed failure outcome
    rw [(statuses result listed).1]
    exact recorded.failed result listed failure outcome
  case undone =>
    intro noRequeue result listed step member depends
    rw [started]
    exact recorded.undone noRequeue result listed step member depends
  case older => exact recorded.older
  case counted =>
    intro result listed
    rw [(statuses result listed).2]
    exact recorded.counted result listed
  case scheduled => exact scheduled
  case oldFailures =>
    intro stepId notListed
    rw [failures]
    exact recorded.oldFailures stepId notListed
  case newFailures =>
    intro result listed failure outcome
    rw [failures]
    exact recorded.newFailures result listed failure outcome
  case oldCompletions =>
    intro event member stepId attempt completes
    rcases List.mem_append.mp member with old | new
    · exact recorded.oldCompletions event old stepId attempt completes
    · exact absurd completes (not_completesAttempt_of_not_ends (noEndings event new) _ _)
  case newCompletions =>
    intro result listed success outcome
    obtain ⟨event, member, completes⟩ := recorded.newCompletions result listed success outcome
    exact ⟨event, List.mem_append_left _ member, completes⟩
  case grown =>
    obtain ⟨more, log⟩ := recorded.grown
    exact ⟨more ++ batch, by rw [← List.append_assoc, ← log]⟩
  case attempts => exact recorded.attempts
  case calls =>
    intro record member
    have before := recorded.calls record member
    rw [List.length_append]
    omega

/-- Once the retries are scheduled, none is owed. -/
private theorem WaveRecorded.afterRetries (accepted : (replay world.log).AcceptsAll batch)
    (consistent : Consistent setting next) (appended : Appended world batch next) :
    WaveRecorded setting care head next results ∧
      (care.retries → ∀ stepId, ¬ RetryOwed setting.definition next.log stepId) := by
  obtain ⟨untouched, scheduled⟩ := (recorded.legalRetries drafted).2 accepted
  rw [← appended.replay] at untouched scheduled
  have plain := drafted.forall_mem plain_of_mem_retries
  have untouchedResult {result : AttemptResult} (listed : result ∈ results)
      (notDue : ¬ retryDue result = true) :
      (replay next.log).steps result.stepId = (replay world.log).steps result.stepId := by
    apply untouched.steps
    intro inDue
    obtain ⟨other, otherListed, same⟩ := List.mem_map.mp inDue
    obtain ⟨otherInResults, due⟩ := List.mem_filter.mp otherListed
    obtain rfl := eq_of_stepId_eq recorded.nodup otherInResults listed same
    exact notDue due
  have statuses : ∀ result ∈ results, ((replay next.log).steps result.stepId).status =
        ((replay world.log).steps result.stepId).status ∧
      ((replay next.log).steps result.stepId).attempts =
        ((replay world.log).steps result.stepId).attempts := by
    intro result listed
    by_cases due : retryDue result = true
    · rw [scheduled result (List.mem_filter.mpr ⟨listed, due⟩)]
      exact ⟨rfl, rfl⟩
    · rw [untouchedResult listed due]
      exact ⟨rfl, rfl⟩
  have within : ∀ result ∈ results,
      ((replay next.log).steps result.stepId).nextRetryAt = none ∨
        result.attempt ≤ result.step.retryPolicy.maxRetries := by
    intro result listed
    by_cases due : retryDue result = true
    · exact .inr (le_of_retryDue due)
    · rw [untouchedResult listed due]
      exact recorded.scheduled result listed
  have untouchedOthers : ∀ stepId ∉ results.map AttemptResult.stepId,
      (replay next.log).steps stepId = (replay world.log).steps stepId := fun stepId notListed =>
    untouched.steps stepId fun inDue => notListed ((List.filter_sublist.map _).subset inDue)
  have kept : WaveRecorded setting care head next results :=
    recorded.append consistent appended (untouched.status.trans recorded.runs) statuses within
      untouchedOthers untouched.escalations (fun event member => (plain event member).2.2.1)
      (fun event member => (plain event member).2.2.2)
  refine ⟨kept, ?_⟩
  intro careful stepId owed
  obtain ⟨inst, folded, _⟩ := consistent.folds
  rw [retryOwed_iff folded] at owed
  obtain ⟨failed, unscheduled, step, member, sameStep, attempt, within, last⟩ := owed
  by_cases listed : stepId ∈ results.map AttemptResult.stepId
  · obtain ⟨result, inResults, rfl⟩ := List.mem_map.mp listed
    cases outcome : result.outcome with
    | success success =>
      have completed := kept.completed result inResults success outcome
      rw [failed] at completed
      cases completed
    | failure failure =>
      rw [kept.newFailures result inResults failure outcome, Option.some.injEq,
        Prod.mk.injEq] at last
      obtain ⟨sameAttempt, retryable⟩ := last
      subst sameAttempt
      obtain ⟨resultStep, resultSame⟩ := recorded.step result inResults
      have sameSteps := setting.definition.eq_of_stepId_eq member resultStep
        (sameStep.trans resultSame.symm)
      subst sameSteps
      have due : retryDue result = true := by
        unfold retryDue
        rw [outcome]
        simp [retryable, within]
      rw [scheduled result (List.mem_filter.mpr ⟨inResults, due⟩)] at unscheduled
      cases unscheduled
  · obtain ⟨headInst, headFolded, _⟩ := recorded.headConsistent.folds
    apply recorded.tidy.retries careful stepId
    rw [retryOwed_iff headFolded]
    rw [kept.untouched stepId listed] at failed unscheduled
    rw [kept.oldFailures stepId listed] at last
    exact ⟨failed, unscheduled, step, member, sameStep, attempt, within, last⟩

/-! ## Raising reviews -/

omit recorded

omit drafted

theorem reviewsOf_sublist (results : List AttemptResult) :
    ((reviewsOf results).map Prod.fst).Sublist (results.map AttemptResult.stepId) := by
  unfold reviewsOf
  induction results with
  | nil => exact List.Sublist.refl _
  | cons result rest ih =>
    rw [List.filterMap_cons]
    cases result.outcome.review with
    | none => exact ih.cons _
    | some review => exact ih.cons_cons _

private theorem mem_reviewsOf {review : String × ReviewRequest}
    (listed : review ∈ reviewsOf results) : ∃ result ∈ results, result.stepId = review.1 ∧
      ∃ success, result.outcome = .success success := by
  obtain ⟨result, member, found⟩ := List.mem_filterMap.mp listed
  obtain ⟨request, asked, rfl⟩ := Option.map_eq_some_iff.mp found
  refine ⟨result, member, rfl, ?_⟩
  cases outcome : result.outcome with
  | success success => exact ⟨success, rfl⟩
  | failure failure =>
    rw [outcome] at asked
    cases asked

private theorem stepId_mem_reviewsOf (listed : result ∈ results)
    (asked : result.outcome.review.isSome = true) :
    result.stepId ∈ (reviewsOf results).map Prod.fst := by
  obtain ⟨request, found⟩ := Option.isSome_iff_exists.mp asked
  refine List.mem_map.mpr ⟨(result.stepId, request), ?_, rfl⟩
  exact List.mem_filterMap.mpr ⟨result, listed, by rw [found]; rfl⟩

/-- The escalation that a review is raised as. -/
def reviewEscalation (now : Time) (review : String × ReviewRequest) (escalationId : String) :
    Escalation where
  escalationId := escalationId
  stepId := review.1
  reason := review.2.reason
  recommendation := review.2.recommendation
  confidence := review.2.confidence
  options := review.2.options
  deadline := deadlineAfter now review.2.timeoutSeconds
  autoAction := review.2.autoAction

/-- Drafting the reviews of a wave. -/
private theorem keeps_reviewEvents (consistent : Consistent setting world)
    (inst : WorkflowInstance) (now : Time) (reviews : List (String × ReviewRequest)) :
    Keeps setting care
      (fun events next => Idle setting world next ∧ ∃ escalations : List Escalation,
        escalations.map Escalation.stepId = reviews.map Prod.fst ∧ Drawn world next escalations ∧
        Drafted (rulesOf setting) world.clock (escalations.map .escalationRaised) events)
      (Program.traverse (reviewEvent inst now) reviews) world := by
  apply Program.safe_traverse fun done events next => Idle setting world next ∧
    ∃ escalations : List Escalation,
      escalations.map Escalation.stepId = List.map Prod.fst done ∧
      Drawn world next escalations ∧
      Drafted (rulesOf setting) world.clock (escalations.map .escalationRaised) events
  · exact ⟨.refl setting world, [], rfl, .nil world world, .nil⟩
  · rintro before review after _ events middle ⟨idle, escalations, steps, drawn, drafted⟩
    refine (keeps_raise (consistent.idle idle) inst (reviewEscalation now review)).imp ?_
    rintro event final ⟨id, idle', drafted', fresh, issued⟩
    refine ⟨idle.trans idle', escalations ++ [reviewEscalation now review id], ?_,
      drawn.concat idle idle' fresh issued, ?_⟩
    · rw [List.map_append, List.map_append, steps]
      rfl
    · rw [List.map_append]
      exact drafted.append (drafted'.of_le idle.clock_le)

section Reviews

variable {escalations : List Escalation} {park : Event} {reason : Option String}

include recorded

/-- Every review may be raised. -/
private theorem WaveRecorded.reviewable
    (fresh : ∀ escalation ∈ escalations, (replay world.log).Fresh escalation.escalationId)
    (steps : escalations.map Escalation.stepId = (reviewsOf results).map Prod.fst) :
    ∀ escalation ∈ escalations, escalation.stepId ∈ setting.definition.stepIds ∧
      ((replay world.log).steps escalation.stepId).status = .completed ∧
      (¬ (replay world.log).Open escalation.stepId ∨
        Loose (rulesOf setting) (replay world.log) escalation.stepId) ∧
      (replay world.log).Fresh escalation.escalationId ∧
      (¬ (rulesOf setting).requeues → ∀ step ∈ setting.definition.steps,
        escalation.stepId ∈ step.dependencies → ¬ (replay world.log).Started step.stepId) := by
  intro escalation member
  have listed : escalation.stepId ∈ (reviewsOf results).map Prod.fst :=
    steps ▸ List.mem_map_of_mem member
  obtain ⟨review, reviewListed, same⟩ := List.mem_map.mp listed
  obtain ⟨result, inResults, sameStep, success, outcome⟩ := mem_reviewsOf reviewListed
  rw [← same, ← sameStep]
  obtain ⟨stepMember, sameId⟩ := recorded.step result inResults
  have known : result.stepId ∈ setting.definition.stepIds := sameId ▸ List.mem_map_of_mem stepMember
  have completed := recorded.completed result inResults success outcome
  refine ⟨known, completed, ?_, fresh escalation member, ?_⟩
  · apply recorded.consistent.run.invariant.not_open_or_loose
    · exact setting.definition.stepId_ne_empty known
    · rw [completed]
      simp
  · exact fun noRequeue => recorded.undone noRequeue result inResults

private theorem WaveRecorded.legalReviews (drawn : Drawn world next escalations)
    (steps : escalations.map Escalation.stepId = (reviewsOf results).map Prod.fst)
    (drafted : Drafted (rulesOf setting) time (escalations.map .escalationRaised) batch) :
    LegalBatch (rulesOf setting) (replay world.log) batch ∧ ((replay world.log).AcceptsAll batch →
        Raised (replay world.log) escalations ((replay world.log).afterAll batch)) := by
  refine legal_reviews recorded.runs ?_ drawn.nodup ?_ drafted
  · rw [steps]
    exact recorded.nodup.sublist (reviewsOf_sublist results)
  · exact recorded.reviewable (fun _ member => drawn.isFresh recorded.consistent member) steps

omit recorded in
private theorem plain_of_mem_raised : ∀ payload ∈ escalations.map Payload.escalationRaised,
      compensates payload = false ∧ gated payload = false ∧ ends payload = false := by
  intro payload listed
  obtain ⟨escalation, _, rfl⟩ := List.mem_map.mp listed
  exact ⟨rfl, rfl, rfl⟩

private theorem WaveRecorded.properReviews {drawnAt : World}
    (drawn : Drawn drawnAt world escalations)
    (legal : LegalBatch (rulesOf setting) (replay world.log) batch ∧ ((replay world.log).AcceptsAll
      batch → Raised (replay world.log) escalations ((replay world.log).afterAll batch)))
    (drafted : Drafted (rulesOf setting) time (escalations.map .escalationRaised) batch)
    (parks : park.payload = .instanceStatusChanged .running .waitingApproval reason) :
    Proper setting care world (batch ++ [park]) := by
  have plain := drafted.forall_mem plain_of_mem_raised
  constructor
  case sound =>
    apply sound_of_parking recorded.consistent legal.1 _ parks
    · exact fun event member => (plain event member).1
    · intro event member escalation payload
      have listed : event.payload ∈ escalations.map Payload.escalationRaised := by
        rw [← drafted.payloads]
        exact List.mem_map_of_mem member
      obtain ⟨other, otherMember, same⟩ := List.mem_map.mp listed
      rw [payload] at same
      cases same
      exact drawn.issued escalation otherMember
    · exact fun accepted => (legal.2 accepted).status.trans recorded.runs
  case held =>
    right
    exact forall_mem_concat (fun event old => (plain event old).2.1) (by rw [parks]; rfl)
  case reports => exact fun _ => recorded.reports _
  case billed =>
    have noEndings : NoEndings (batch ++ [park]) :=
      NoEndings.park (fun event member => (plain event member).2.2) parks
    exact fun _ => noEndings.billed world

/-- No review is owed once those of the wave are raised. -/
private theorem WaveRecorded.noReviewOwed (noRequeue : ¬ (rulesOf setting).requeues)
    (tidy : ¬ ReviewOwed head) (log : next.log = world.log ++ batch)
    (attempts : next.attempts = world.attempts) (noEndings : NoEndings batch)
    (raised : ∀ result ∈ results, result.outcome.review.isSome = true → ∃ escalationId, InOrder
      [completesAttempt result.stepId result.attempt, raisesFor result.stepId escalationId]
      next.log) : ¬ ReviewOwed next := by
  rintro ⟨record, member, asked, ⟨event, eventMember, completes⟩, unraised⟩
  rw [attempts] at member
  rw [log] at eventMember
  rcases recorded.attempts record member with old | ⟨result, listed, rfl⟩
  · rcases List.mem_append.mp eventMember with early | late
    · rcases recorded.oldCompletions event early _ _ completes with inHead | ⟨result, listed, same⟩
      · apply tidy
        refine ⟨record, old, asked, ⟨event, inHead, completes⟩, ?_⟩
        rintro ⟨escalationId, inOrder⟩
        obtain ⟨more, grown⟩ := recorded.grown
        apply unraised
        refine ⟨escalationId, ?_⟩
        rw [log, grown, List.append_assoc]
        exact inOrder.append _
      · have older := recorded.older noRequeue result listed record old same.1.symm
        omega
    · exact absurd completes (not_completesAttempt_of_not_ends (noEndings event late) _ _)
  · exact unraised (raised result listed asked)

/-- Without reviews nothing is owed any more. -/
private theorem WaveRecorded.tidy_of_no_reviews
    (careful : care.reviews → ¬ (rulesOf setting).requeues)
    (retries : care.retries → ∀ stepId, ¬ RetryOwed setting.definition world.log stepId)
    (none : reviewsOf results = []) : Tidy setting care world := by
  constructor
  case retries => exact retries
  case reviews =>
    intro cares
    refine recorded.noReviewOwed (careful cares) (recorded.tidy.reviews cares)
      (List.append_nil _).symm rfl (List.forall_mem_nil _) ?_
    intro result listed asked
    have inReviews := stepId_mem_reviewsOf listed asked
    rw [none] at inReviews
    cases inReviews
  case calls =>
    rintro _ ⟨record, member, now⟩
    exact absurd now (recorded.calls record member).ne

/-- Once the reviews are raised nothing is owed any more. -/
private theorem WaveRecorded.tidy_of_reviews (careful : care.reviews → ¬ (rulesOf setting).requeues)
    (retries : care.retries → ∀ stepId, ¬ RetryOwed setting.definition world.log stepId)
    (steps : escalations.map Escalation.stepId = (reviewsOf results).map Prod.fst)
    (drafted : Drafted (rulesOf setting) time (escalations.map .escalationRaised) batch)
    (parks : park.payload = .instanceStatusChanged .running .waitingApproval reason)
    (legal : LegalBatch (rulesOf setting) (replay world.log) (batch ++ [park]))
    (consistent : Consistent setting next) (appended : Appended world (batch ++ [park]) next) :
    Tidy setting care next := by
  have plain := drafted.forall_mem plain_of_mem_raised
  have noEndings : NoEndings (batch ++ [park]) :=
    NoEndings.park (fun event member => (plain event member).2.2) parks
  have retriesBefore {stepId : String} (owed : RetryOwed setting.definition next.log stepId) :
      RetryOwed setting.definition world.log stepId :=
    owed.of_appended appended recorded.consistent consistent legal noEndings
  obtain ⟨rows, rfl⟩ := appended
  constructor
  case retries => exact fun cares stepId owed => retries cares stepId (retriesBefore owed)
  case reviews =>
    intro cares
    refine recorded.noReviewOwed (careful cares) (recorded.tidy.reviews cares) rfl rfl noEndings ?_
    intro result listed asked
    have inReviews := stepId_mem_reviewsOf listed asked
    rw [← steps] at inReviews
    obtain ⟨escalation, escalationMember, sameStep⟩ := List.mem_map.mp inReviews
    obtain ⟨event, eventMember, payload⟩ :=
      drafted.exists_mem (List.mem_map_of_mem (f := Payload.escalationRaised) escalationMember)
    refine ⟨escalation.escalationId, ?_⟩
    obtain ⟨success, outcome⟩ : ∃ success, result.outcome = .success success := by
      cases outcome : result.outcome with
      | success success => exact ⟨success, rfl⟩
      | failure failure =>
        rw [outcome] at asked
        cases asked
    have completion := recorded.newCompletions result listed success outcome
    exact (inOrder_singleton.mpr completion).concat (List.mem_append_left _ eventMember)
      ⟨escalation, payload, sameStep, rfl⟩
  case calls =>
    rintro _ ⟨record, member, now⟩
    have before := recorded.calls record member
    rw [List.length_append] at now
    omega

end Reviews

/-! ## The whole wave -/

/-- What a wave has come to, compared with the world at its head. -/
structure WaveSettled (head world : World) (results : List AttemptResult) : Prop where
  completed : ∀ result ∈ results, ∀ success, result.outcome = .success success →
    success.review = none → ((replay world.log).steps result.stepId).status = .completed
  held : ∀ result ∈ results, result.outcome.review.isSome = true →
    ((replay world.log).steps result.stepId).status = .waitingApproval
  failed : ∀ result ∈ results, ∀ failure, result.outcome = .failure failure →
    ((replay world.log).steps result.stepId).status = .failed ∧
      ((replay world.log).steps result.stepId).attempts = result.attempt ∧
      (((replay world.log).steps result.stepId).nextRetryAt = none ∨
        result.attempt ≤ result.step.retryPolicy.maxRetries)
  untouched : ∀ stepId ∉ results.map AttemptResult.stepId,
    (replay world.log).steps stepId = (replay head.log).steps stepId
  runs : reviewsOf results = [] → (replay world.log).status = .running ∧
    (replay world.log).escalations = (replay head.log).escalations
  parks : reviewsOf results ≠ [] → (replay world.log).status = .waitingApproval

/-- Without reviews the recorded wave is settled. -/
private theorem WaveRecorded.settled (recorded : WaveRecorded setting care head world results)
    (none : reviewsOf results = []) : WaveSettled head world results := by
  constructor
  case completed =>
    exact fun result listed success outcome _ =>
      recorded.completed result listed success outcome
  case held =>
    intro result listed asked
    have inReviews := stepId_mem_reviewsOf listed asked
    rw [none] at inReviews
    cases inReviews
  case failed =>
    exact fun result listed failure outcome => ⟨recorded.failed result listed failure outcome,
      recorded.counted result listed, recorded.scheduled result listed⟩
  case untouched => exact recorded.untouched
  case runs => exact fun _ => ⟨recorded.runs, recorded.escalations⟩
  case parks => exact fun some => absurd none some

/-- Raising the reviews settles the recorded wave. -/
private theorem WaveRecorded.settled_of_raised
    (recorded : WaveRecorded setting care head world results) {escalations : List Escalation}
    {park : Event} {reason : Option String} (some : reviewsOf results ≠ [])
    (steps : escalations.map Escalation.stepId = (reviewsOf results).map Prod.fst)
    (raised : Raised (replay world.log) escalations ((replay world.log).afterAll batch))
    (parks : park.payload = .instanceStatusChanged .running .waitingApproval reason)
    (appended : Appended world (batch ++ [park]) next) : WaveSettled head next results := by
  have replayed : replay next.log = ((replay world.log).afterAll batch).after park := by
    rw [appended.replay, State.afterAll_append]
    rfl
  have sameSteps : (replay next.log).steps = ((replay world.log).afterAll batch).steps := by
    rw [replayed, State.after, parks]
    rfl
  have unreviewed {result : AttemptResult} (listed : result ∈ results)
      (unasked : result.outcome.review = none) :
      (replay next.log).steps result.stepId = (replay world.log).steps result.stepId := by
    rw [sameSteps]
    apply raised.steps
    rw [steps]
    intro inReviews
    obtain ⟨review, reviewListed, same⟩ := List.mem_map.mp inReviews
    obtain ⟨other, otherListed, found⟩ := List.mem_filterMap.mp reviewListed
    obtain ⟨request, asked, rfl⟩ := Option.map_eq_some_iff.mp found
    obtain rfl := eq_of_stepId_eq recorded.nodup otherListed listed same
    rw [unasked] at asked
    cases asked
  constructor
  case completed =>
    intro result listed success outcome unasked
    rw [unreviewed listed (by rw [outcome]; exact unasked)]
    exact recorded.completed result listed success outcome
  case held =>
    intro result listed asked
    have inReviews := stepId_mem_reviewsOf listed asked
    rw [← steps] at inReviews
    obtain ⟨escalation, member, same⟩ := List.mem_map.mp inReviews
    obtain ⟨stepMember, sameId⟩ := recorded.step result listed
    have known : result.stepId ∈ setting.definition.stepIds :=
      sameId ▸ List.mem_map_of_mem stepMember
    rw [sameSteps, ← same]
    exact raised.held escalation member (same ▸ setting.definition.stepId_ne_empty known)
  case failed =>
    intro result listed failure outcome
    rw [unreviewed listed (by rw [outcome]; rfl)]
    exact ⟨recorded.failed result listed failure outcome, recorded.counted result listed,
      recorded.scheduled result listed⟩
  case untouched =>
    intro stepId notListed
    rw [sameSteps, raised.steps stepId, recorded.untouched stepId notListed]
    rw [steps]
    exact fun listed => notListed ((reviewsOf_sublist results).subset listed)
  case runs => exact fun none => absurd none some
  case parks =>
    intro _
    rw [replayed, State.after, parks]
    rfl

variable (holds : Holds setting world inst)

include holds

/-- Appending the results. -/
private theorem keeps_recordResults (ended : WaveEnded setting care head world results) :
    Keeps setting care
      (fun result next => Holds setting next result ∧
        WaveRecorded setting care head next results)
      (do
        let drafts ← Program.traverse (draftEvent inst) (results.flatMap resultPayloads)
        append setting.definition inst drafts)
      world := by
  refine (keeps_drafts ended.consistent inst _).bind ?_
  rintro drafts middle ⟨idle, drafted⟩
  have middleEnded := ended.idle idle
  have middleHolds := holds.idle idle
  have numbered := drafted.resequence middle.log.length
  refine (keeps_append middleHolds middleEnded.consistent
    (fun _ => middleEnded.proper numbered) none).imp ?_
  rintro result next ⟨nextHolds, consistent, appended⟩
  exact ⟨nextHolds, middleEnded.recorded numbered (middleHolds.acceptsAll appended nextHolds)
    consistent appended⟩

omit holds in
private theorem keeps_recordWaveSpend (consistent : Consistent setting world)
    (inst : WorkflowInstance) (results : List AttemptResult) :
    Keeps setting care (fun _ next => Idle setting world next)
      (recordWaveSpend config inst results) world := by
  unfold recordWaveSpend
  cases config.budget with
  | none => exact .refl setting world
  | some limit =>
    dsimp only
    split
    · refine (keeps_now consistent).bind ?_
      rintro now middle ⟨idle, _, _⟩
      refine ⟨⟨consistent.idle idle, trivial⟩, ?_⟩
      rintro _ final rfl
      exact idle
    · exact .refl setting world

/-- Appending the retries. -/
private theorem keeps_scheduleRetries (recorded : WaveRecorded setting care head world results)
    (now : Time) :
    Keeps setting care
      (fun result next => Holds setting next result ∧
        WaveRecorded setting care head next results ∧
        (care.retries → ∀ stepId, ¬ RetryOwed setting.definition next.log stepId))
      (do
        let drafts ← Program.traverse (draftEvent inst) (results.filterMap (retryPayload now))
        append setting.definition inst drafts)
      world := by
  refine (keeps_drafts recorded.consistent inst _).bind ?_
  rintro drafts middle ⟨idle, drafted⟩
  have middleRecorded := recorded.idle idle
  have middleHolds := holds.idle idle
  have numbered := drafted.resequence middle.log.length
  refine (keeps_append middleHolds middleRecorded.consistent
    (fun _ => middleRecorded.properRetries numbered) none).imp ?_
  rintro result next ⟨nextHolds, consistent, appended⟩
  exact ⟨nextHolds, middleRecorded.afterRetries numbered
    (middleHolds.acceptsAll appended nextHolds) consistent appended⟩

/-- Appending the reviews. -/
private theorem keeps_raiseReviewEscalations (careful : care.reviews → ¬ (rulesOf setting).requeues)
    (recorded : WaveRecorded setting care head world results)
    (retries : care.retries → ∀ stepId, ¬ RetryOwed setting.definition world.log stepId)
    (some : reviewsOf results ≠ []) : Keeps setting care
      (fun result next => AtHead setting care next result ∧ WaveSettled head next results)
      (raiseReviewEscalations setting.definition inst (reviewsOf results)) world := by
  refine (keeps_now recorded.consistent).bind ?_
  rintro now timed ⟨timedIdle, _, _⟩
  have timedRecorded := recorded.idle timedIdle
  refine (keeps_reviewEvents timedRecorded.consistent inst now (reviewsOf results)).bind ?_
  rintro raisedEvents drawnWorld ⟨drawnIdle, escalations, steps, drawn, raisedDrafted⟩
  refine (keeps_draftEvent (timedRecorded.consistent.idle drawnIdle) inst _).bind ?_
  rintro parked middle ⟨parkIdle, parkDrafted⟩
  have idle := (timedIdle.trans drawnIdle).trans parkIdle
  have middleRecorded := recorded.idle idle
  have middleHolds := holds.idle idle
  have middleDrawn : Drawn timed middle escalations :=
    ⟨drawn.nodup, drawn.fresh, fun escalation member =>
      parkIdle.issued_subset _ (drawn.issued escalation member)⟩
  have numbered := (raisedDrafted.append (parkDrafted.of_le drawnIdle.clock_le)).resequence
    middle.log.length
  obtain ⟨batch, parkEvents, batchOk, batchDrafted, parkEventsDrafted⟩ := numbered.eq_append
  obtain ⟨park, rest, rfl, parks, _, restDrafted⟩ := parkEventsDrafted.eq_cons
  obtain rfl := restDrafted.eq_nil
  have legal : LegalBatch (rulesOf setting) (replay middle.log) batch ∧
      ((replay middle.log).AcceptsAll batch →
        Raised (replay middle.log) escalations ((replay middle.log).afterAll batch)) := by
    rw [(drawnIdle.trans parkIdle).log]
    exact timedRecorded.legalReviews drawn steps batchDrafted
  have proper : Proper setting care middle (batch ++ [park]) :=
    middleRecorded.properReviews middleDrawn legal batchDrafted parks
  rw [← batchOk] at proper
  refine (keeps_append middleHolds middleRecorded.consistent (fun _ => proper) none).imp ?_
  rintro result next ⟨nextHolds, consistent, appended⟩
  have accepted := middleHolds.acceptsAll appended nextHolds
  rw [batchOk] at appended proper accepted
  refine ⟨⟨nextHolds, consistent, ?_⟩, ?_⟩
  · exact middleRecorded.tidy_of_reviews careful (idle.log ▸ retries) steps batchDrafted parks
      proper.sound.legal consistent appended
  · exact middleRecorded.settled_of_raised some steps
      (legal.2 (acceptsAll_append.mp accepted).1) parks appended

/-- The second half of a wave leads back to the head of the loop. -/
theorem keeps_settleWave (careful : care.reviews → ¬ (rulesOf setting).requeues)
    (ended : WaveEnded setting care head world results) : Keeps setting care
      (fun result next => AtHead setting care next result ∧ WaveSettled head next results)
      (settleWave config setting.definition inst results) world := by
  refine (keeps_recordResults holds ended).bind_bind ?_
  rintro told recordedWorld ⟨toldHolds, recorded⟩
  refine (keeps_recordWaveSpend recorded.consistent told results).bind ?_
  intro _ spent spentIdle
  refine (keeps_now (recorded.consistent.idle spentIdle)).bind ?_
  rintro now timed ⟨timedIdle, _, _⟩
  have idle := spentIdle.trans timedIdle
  refine (keeps_scheduleRetries (toldHolds.idle idle) (recorded.idle idle) now).bind_bind ?_
  rintro scheduled final ⟨scheduledHolds, scheduledRecorded, retries⟩
  by_cases none : reviewsOf results = []
  · rw [none]
    exact ⟨⟨scheduledHolds, scheduledRecorded.consistent,
      scheduledRecorded.tidy_of_no_reviews careful retries none⟩, scheduledRecorded.settled none⟩
  · rw [if_neg (by simpa using none)]
    exact keeps_raiseReviewEscalations scheduledHolds careful scheduledRecorded retries none

end Record

/-- A wave leads from the head of the loop back to it. -/
theorem keeps_dispatchWave {lease : Lease} {plan : Plan}
    (careful : care.reviews → ¬ (rulesOf setting).requeues)
    (metered : care.charges → Metered config) (atHead : AtHead setting care world inst)
    (runs : inst.status = .running)
    (sound : SoundPlan inst setting.definition now plan)
    (current : setting.monotoneClock → now ≤ world.clock) (nonempty : plan.dispatch ≠ []) :
    Keeps setting care (fun result next => AtHead setting care next result)
      (dispatchWave config setting.definition lease inst plan.dispatch) world := by
  refine (keeps_startWave atHead runs sound current nonempty).bind_bind ?_
  rintro started startWorld ⟨startHolds, startedWave⟩
  refine (keeps_budgetView startedWave.consistent started).bind ?_
  intro budget viewed viewIdle
  refine (keeps_runWave metered (startedWave.idle viewIdle)).bind ?_
  rintro results final ⟨sameLog, _, ended⟩
  have held : Holds setting final started := by
    unfold Holds
    rw [sameLog, viewIdle.log]
    exact startHolds
  exact (keeps_settleWave held careful ended).imp fun _ _ settled => settled.1

end AgentForge.Refinement
