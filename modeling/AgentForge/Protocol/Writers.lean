import AgentForge.Protocol.Batches

/-!
# The batches of the driver

Each kind of batch that the driver writes about several steps at once is legal,
and leads to a state in which exactly these steps have changed.
-/

namespace AgentForge.Protocol

open Domain Events

variable {rules : Rules} {state : State} {time : Time} {events : List Event}

variable {next : State} {change : StepView → StepView} {event : Event} {stepId : String}
  {ι : Type} {ids : List String} {payload : Payload} {attempt : Nat} {stepIds : List String}

/-- Only the listed steps have changed. -/
structure Untouched (stepIds : List String) (state next : State) : Prop where
  status : next.status = state.status
  steps : ∀ stepId ∉ stepIds, next.steps stepId = state.steps stepId
  escalations : next.escalations = state.escalations

theorem open_iff_of_escalations_eq (same : next.escalations = state.escalations)
    (stepId : String) : next.Open stepId ↔ state.Open stepId := by
  rw [State.Open, State.Open, same]

theorem granted_iff_of_escalations_eq
    (same : next.escalations = state.escalations) (stepId : String) :
    next.Granted stepId ↔ state.Granted stepId := by
  rw [State.Granted, State.Granted, same]

namespace Untouched

variable {stepIds : List String} {next : State} {event : Event} {stepId : String}

theorem refl (stepIds : List String) (state : State) : Untouched stepIds state state :=
  ⟨rfl, fun _ _ => rfl, rfl⟩

/-- An event that rewrites one more step. -/
theorem modifyStep (untouched : Untouched stepIds state next)
    (advanced : next.advance event.payload = next.modifyStep stepId change) :
    Untouched (stepIds ++ [stepId]) state (next.after event) := by
  unfold State.after
  rw [advanced]
  refine ⟨untouched.status, ?_, untouched.escalations⟩
  intro other notListed
  rw [List.mem_append, List.mem_singleton, not_or] at notListed
  change (next.modifyStep stepId change).steps other = _
  rw [steps_modifyStep, if_neg notListed.2]
  exact untouched.steps other notListed.1

/-- An event that rewrites a listed step. -/
theorem modifyStep_of_mem (untouched : Untouched stepIds state next) (member : stepId ∈ stepIds)
    (advanced : next.advance event.payload = next.modifyStep stepId change) :
    Untouched stepIds state (next.after event) := by
  have grown := untouched.modifyStep advanced
  refine ⟨grown.status, fun other notListed => grown.steps other ?_, grown.escalations⟩
  rw [List.mem_append, List.mem_singleton, not_or]
  exact ⟨notListed, fun same => notListed (same ▸ member)⟩

end Untouched

/-- The step an event rewrites, after the event. -/
theorem steps_after_self (advanced : state.advance event.payload = state.modifyStep stepId change) :
    (state.after event).steps stepId = change (state.steps stepId) := by
  change (state.advance event.payload).steps stepId = _
  rw [advanced, steps_modifyStep, if_pos rfl]

theorem steps_after_of_ne {stepId other : String} (different : other ≠ stepId)
    (advanced : state.advance event.payload = state.modifyStep stepId change) :
    (state.after event).steps other = state.steps other := by
  change (state.advance event.payload).steps other = _
  rw [advanced, steps_modifyStep, if_neg different]

theorem not_mem_before_of_split {key : ι → String} {items before after : List ι}
    {item : ι} (nodup : (items.map key).Nodup) (split : items = before ++ item :: after) :
    key item ∉ before.map key := by
  subst split
  rw [List.map_append, List.map_cons] at nodup
  intro member
  exact (List.nodup_append.mp nodup).2.2 _ member _ List.mem_cons_self rfl

/-! ## Recovery -/

theorem legal_recovered {reason : Option String} (nodup : stepIds.Nodup)
    (running : ∀ stepId ∈ stepIds, stepId ∈ rules.definition.stepIds ∧
      (state.steps stepId).status = .running) (drafted : Drafted rules time
      (stepIds.map fun stepId => .stepStatusChanged stepId .running .ready reason) events) :
    LegalBatch rules state events ∧
      (state.AcceptsAll events → Untouched stepIds state (state.afterAll events)) := by
  refine legalBatch_map (fun done next => Untouched done state next) (.refl [] state) ?_ drafted
  intro before stepId after split middle event untouched payload
  have notBefore : stepId ∉ before := by
    rw [← List.map_id before]
    exact not_mem_before_of_split ((List.map_id stepIds).symm ▸ nodup) split
  obtain ⟨member, found⟩ := running stepId (by simp [split])
  rw [← untouched.steps stepId notBefore] at found
  rw [payload]
  refine ⟨.recovered member found, fun _ => ?_⟩
  apply untouched.modifyStep
  rw [payload, State.advance]

/-! ## Dispatch -/

private theorem countP_le_of_eq_off {good good' : String → Bool}
    {changed : String} (nodup : ids.Nodup) (same : ∀ id ≠ changed, good' id = good id) :
    ids.countP good' ≤ ids.countP good + 1 := by
  induction ids with
  | nil => simp
  | cons id rest ih =>
    obtain ⟨notMember, restNodup⟩ := List.nodup_cons.mp nodup
    rw [List.countP_cons, List.countP_cons]
    by_cases isChanged : id = changed
    · subst isChanged
      have rests : rest.countP good' = rest.countP good :=
        List.countP_congr fun other member => by
          rw [same other fun equal => notMember (equal ▸ member)]
      rw [rests]
      split <;> split <;> omega
    · rw [same id isChanged]
      have := ih restNodup
      omega

/-- Starting one step adds at most one to the running ones. -/
theorem runningCount_le_succ
    (nodup : ids.Nodup) (same : ∀ other ≠ stepId, next.steps other = state.steps other) :
    next.runningCount ids ≤ state.runningCount ids + 1 :=
  countP_le_of_eq_off nodup fun other different => by rw [same other different]

/-- A step that is not running adds nothing. -/
theorem runningCount_le (same : ∀ other ≠ stepId, next.steps other = state.steps other)
    (idle : (next.steps stepId).status ≠ .running) :
    next.runningCount ids ≤ state.runningCount ids := by
  apply List.countP_mono_left
  intro other _ running
  by_cases isStep : other = stepId
  · subst isStep
    exact absurd (of_decide_eq_true running) idle
  · rwa [same other isStep] at running

/-- A step that may be started, with the number of the attempt. -/
def Startable (rules : Rules) (state : State) (time : Time) (candidate : String × Nat) : Prop :=
  ∃ step ∈ rules.definition.steps, step.stepId = candidate.1 ∧
    candidate.2 = (state.steps candidate.1).attempts + 1 ∧
    (¬ rules.requeues → ∀ dependency ∈ step.dependencies, state.Done dependency) ∧
    ((state.steps candidate.1).status = .pending ∨ (state.steps candidate.1).status = .ready ∨
      (state.steps candidate.1).status = .failed ∧
        ∃ retryAt, (state.steps candidate.1).nextRetryAt = some retryAt ∧
          (rules.monotone → retryAt ≤ time)) ∧
    ¬ state.Open candidate.1 ∧
    (step.requiresApproval = true → state.Granted candidate.1)

/-- A pending step becomes ready. -/
def readyPayloads (state : State) (stepId : String) : List Payload :=
  if (state.steps stepId).status = .pending then
    [.stepStatusChanged stepId .pending .ready (some "dependencies satisfied")]
  else
    []

def startPayloads (state : State) (workerId : String) (candidate : String × Nat) :
    List Payload :=
  readyPayloads state candidate.1 ++ [.stepStarted candidate.1 candidate.2 workerId none]

theorem not_starts_of_mem_readyPayloads
    (listed : payload ∈ readyPayloads state stepId) (other : String) : ¬ starts payload other := by
  unfold readyPayloads at listed
  by_cases pending : (state.steps stepId).status = .pending
  · rw [if_pos pending, List.mem_singleton] at listed
    rw [listed]
    exact id
  · rw [if_neg pending] at listed
    cases listed

/-- Getting a step ready leaves it ready or waiting for its retry. -/
theorem legal_readied {step : WorkflowStep} {middle : State}
    (member : step ∈ rules.definition.steps) (runs : middle.status = .running)
    (same : middle.steps step.stepId = state.steps step.stepId)
    (drafted : Drafted rules time (readyPayloads state step.stepId) events)
    (untouched : Untouched stepIds state middle) : LegalBatch rules middle events ∧
      Untouched (stepIds ++ [step.stepId]) state (middle.afterAll events) ∧
      (∀ other ≠ step.stepId, (middle.afterAll events).steps other = middle.steps other) ∧
      (middle.afterAll events).steps step.stepId = { state.steps step.stepId with
          status := if (state.steps step.stepId).status = .pending then .ready
            else (state.steps step.stepId).status } ∧
      (middle.afterAll events).remaining = middle.remaining := by
  unfold readyPayloads at drafted
  by_cases pending : (state.steps step.stepId).status = .pending
  · rw [if_pos pending] at drafted
    obtain ⟨event, rest, rfl, payload, _, restDrafted⟩ := drafted.eq_cons
    obtain rfl := restDrafted.eq_nil
    have advanced : middle.advance event.payload =
        middle.modifyStep step.stepId fun view => { view with status := .ready } := by
      rw [payload, State.advance]
    refine ⟨⟨?_, fun _ => trivial⟩, untouched.modifyStep advanced, ?_, ?_, ?_⟩
    · rw [payload]
      exact .readied member (by rw [same, pending]) runs
    · exact fun other different => steps_after_of_ne different advanced
    · rw [if_pos pending, ← same]
      exact steps_after_self advanced
    · change (State.advance middle event.payload).remaining = _
      rw [advanced]
      rfl
  · rw [if_neg pending] at drafted
    obtain rfl := drafted.eq_nil
    refine ⟨trivial, ⟨untouched.status, ?_, untouched.escalations⟩, fun _ _ => rfl, ?_, rfl⟩
    · intro other notListed
      rw [List.mem_append, not_or] at notListed
      exact untouched.steps other notListed.1
    · rw [if_neg pending]
      exact same

/-- The dispatched steps are running, nothing else has changed. -/
structure Dispatched (rules : Rules) (state : State) (dispatch : List (String × Nat))
    (next : State) : Prop where
  untouched : Untouched (dispatch.map Prod.fst) state next
  running : ∀ candidate ∈ dispatch, (next.steps candidate.1).status = .running ∧
    (next.steps candidate.1).attempts = candidate.2
  remaining : next.remaining = state.remaining
  count : next.runningCount rules.definition.stepIds ≤
    state.runningCount rules.definition.stepIds + dispatch.length

private theorem Startable.not_done {candidate : String × Nat}
    (startable : Startable rules state time candidate) : ¬ state.Done candidate.1 := by
  obtain ⟨_, _, _, _, _, runnable, _⟩ := startable
  unfold State.Done
  rcases runnable with found | found | ⟨found, _⟩ <;> simp [found]

theorem legal_started {dispatch : List (String × Nat)} {workerId : String}
    (runs : state.status = .running)
    (budget : ∀ remaining, state.remaining = some remaining → 0 < remaining)
    (nodup : (dispatch.map Prod.fst).Nodup)
    (startable : ∀ candidate ∈ dispatch, Startable rules state time candidate)
    (capacity : state.runningCount rules.definition.stepIds + dispatch.length ≤
      rules.definition.maxConcurrentSteps)
    (drafted : Drafted rules time (dispatch.flatMap (startPayloads state workerId)) events) :
    LegalBatch rules state events ∧
      (state.AcceptsAll events → Dispatched rules state dispatch (state.afterAll events)) := by
  refine legalBatch_flatMap (Dispatched rules state)
    ⟨.refl [] state, List.forall_mem_nil _, rfl, le_rfl⟩ ?_ drafted
  rintro before ⟨stepId, attempt⟩ after split middle group dispatched groupDrafted
  have notBefore := not_mem_before_of_split nodup split
  have inDispatch : (stepId, attempt) ∈ dispatch := by simp [split]
  have beforeStartable : ∀ candidate ∈ before, Startable rules state time candidate :=
    fun candidate member => startable candidate (by simp [split, member])
  have fits : before.length < dispatch.length := by simp [split]
  obtain ⟨step, member, rfl, nextAttempt, done, runnable, notOpen, granted⟩ :=
    startable _ inDispatch
  obtain ⟨readied, started, rfl, readiedDrafted, startedDrafted⟩ := groupDrafted.eq_append
  obtain ⟨event, rest, rfl, payload, late, restDrafted⟩ := startedDrafted.eq_cons
  obtain rfl := restDrafted.eq_nil
  obtain ⟨readiedLegal, untouched, others, ready, remaining⟩ :=
    legal_readied member (dispatched.untouched.status.trans runs)
      (dispatched.untouched.steps _ notBefore) readiedDrafted dispatched.untouched
  set parked := middle.afterAll readied with parkedDef
  have parkedStatus : (parked.steps step.stepId).status = .ready ∨
      (parked.steps step.stepId).status = .failed ∧
        ∃ retryAt, (parked.steps step.stepId).nextRetryAt = some retryAt ∧
          (rules.monotone → retryAt ≤ event.occurredAt) := by
    rw [ready]
    rcases runnable with found | found | ⟨found, retryAt, scheduled, due⟩
    · simp [found]
    · simp [found]
    · right
      refine ⟨by simp [found], retryAt, scheduled, ?_⟩
      exact fun monotone => (due monotone).trans (late monotone)
  have idle : (parked.steps step.stepId).status ≠ .running := by
    rcases parkedStatus with found | ⟨found, _⟩ <;> simp [found]
  have parkedCount : parked.runningCount rules.definition.stepIds ≤
      state.runningCount rules.definition.stepIds + before.length :=
    (runningCount_le others idle).trans dispatched.count
  have parkedDone : ¬ rules.requeues → ∀ dependency ∈ step.dependencies,
      parked.Done dependency := by
    intro noRequeue dependency depends
    have dependencyDone := done noRequeue dependency depends
    unfold State.Done
    rw [untouched.steps dependency]
    · exact dependencyDone
    · rw [List.mem_append, List.mem_singleton, not_or]
      refine ⟨?_, (rules.definition.dependency_mem_stepIds member depends).1⟩
      intro listed
      obtain ⟨candidate, candidateMember, rfl⟩ := List.mem_map.mp listed
      exact (beforeStartable candidate candidateMember).not_done dependencyDone
  have advanced : parked.advance event.payload = parked.modifyStep step.stepId fun view =>
      { view with status := .running, attempts := attempt, nextRetryAt := none } := by
    rw [payload, State.advance]
  have legal : Legal rules parked event.occurredAt event.payload := by
    rw [payload]
    apply Legal.started member (untouched.status.trans runs) parkedDone parkedStatus
    · rw [ready]
      exact nextAttempt
    · rw [remaining, dispatched.remaining]
      exact budget
    · omega
    · rwa [open_iff_of_escalations_eq untouched.escalations]
    · rwa [granted_iff_of_escalations_eq untouched.escalations]
  refine ⟨legalBatch_append.mpr ⟨readiedLegal, fun _ => ⟨legal, fun _ => trivial⟩⟩, fun _ => ?_⟩
  rw [State.afterAll_append]
  change Dispatched rules state _ (parked.after event)
  constructor
  case untouched =>
    rw [List.map_append]
    exact untouched.modifyStep_of_mem (by simp) advanced
  case running =>
    intro candidate candidateMember
    rcases List.mem_append.mp candidateMember with old | new
    · have different : candidate.1 ≠ step.stepId := fun same =>
        notBefore (List.mem_map.mpr ⟨candidate, old, same⟩)
      rw [steps_after_of_ne different advanced, others candidate.1 different]
      exact dispatched.running candidate old
    · rw [List.mem_singleton] at new
      subst new
      rw [steps_after_self advanced]
      exact ⟨rfl, rfl⟩
  case remaining =>
    change (parked.advance event.payload).remaining = _
    rw [advanced]
    exact remaining.trans dispatched.remaining
  case count =>
    have grown : (parked.after event).runningCount rules.definition.stepIds ≤
        parked.runningCount rules.definition.stepIds + 1 :=
      runningCount_le_succ rules.definition.nodup_stepIds fun other different =>
        steps_after_of_ne different advanced
    rw [List.length_append, List.length_singleton]
    omega

/-! ## Results -/

/-- What an attempt of a running step reports besides its outcome. -/
inductive Note (stepId : String) (attempt : Nat) : Payload → Prop
  | llmCall (recording : LLMRecording) :
      Note stepId attempt (.llmCallRecorded stepId attempt recording)
  | charge (amountUsd : Rat) (model : Option String) (tokensInput tokensOutput : Int) :
      Note stepId attempt (.costCharged (some stepId) amountUsd model tokensInput tokensOutput)
  | effectIntended (effectName key : String) (params : JsonDict) (guarantee : Guarantee) :
      Note stepId attempt (.sideEffectIntentRecorded stepId effectName key params guarantee)
  | effectExecuted (key : String) (result : JsonDict) (deduplicated : Bool) :
      Note stepId attempt (.sideEffectExecuted stepId key result deduplicated)

/-- How an attempt ends. -/
inductive Outcome (stepId : String) (attempt : Nat) : Payload → Prop
  | completed (output : JsonDict) (modelUsed : Option String) :
      Outcome stepId attempt (.stepCompleted stepId attempt output modelUsed)
  | failed (errorType errorMessage : String) (retryable : Bool) :
      Outcome stepId attempt (.stepFailed stepId attempt errorType errorMessage retryable)

/-- The step after its attempt has ended. -/
def endedView : Payload → StepView → StepView
  | .stepCompleted _ _ output _, view => { view with status := .completed, output := output }
  | .stepFailed _ _ _ _ _, view => { view with status := .failed }
  | _, view => view

theorem attempts_endedView (payload : Payload) (view : StepView) :
    (endedView payload view).attempts = view.attempts := by
  cases payload <;> rfl

theorem nextRetryAt_endedView (payload : Payload) (view : StepView) :
    (endedView payload view).nextRetryAt = view.nextRetryAt := by
  cases payload <;> rfl

private theorem legal_notes {payloads : List Payload} (member : stepId ∈ rules.definition.stepIds)
    (running : (state.steps stepId).status = .running ∧ (state.steps stepId).attempts = attempt)
    (notes : ∀ payload ∈ payloads, Note stepId attempt payload)
    (drafted : Drafted rules time payloads events) :
    LegalBatch rules state events ∧ (state.afterAll events).steps = state.steps ∧
      (state.afterAll events).status = state.status ∧
      (state.afterAll events).escalations = state.escalations := by
  induction payloads generalizing state events with
  | nil =>
    obtain rfl := drafted.eq_nil
    exact ⟨trivial, rfl, rfl, rfl⟩
  | cons payload payloads ih =>
    obtain ⟨event, rest, rfl, payloadOk, _, restDrafted⟩ := drafted.eq_cons
    have note := notes payload List.mem_cons_self
    have legal : Legal rules state event.occurredAt event.payload := by
      rw [payloadOk]
      cases note with
      | llmCall _ => exact .llmRecorded member running.1 running.2.symm
      | charge _ _ _ _ => exact .charged member running.1
      | effectIntended _ _ _ _ => exact .effectIntended member running.1
      | effectExecuted _ _ _ => exact .effectExecuted member running.1
    have quiet : (state.after event).steps = state.steps ∧
        (state.after event).status = state.status ∧
        (state.after event).escalations = state.escalations := by
      unfold State.after
      rw [payloadOk]
      cases note <;> exact ⟨rfl, rfl, rfl⟩
    obtain ⟨restLegal, steps, status, escalations⟩ := ih (by rwa [quiet.1])
      (fun other otherMember => notes other (List.mem_cons_of_mem _ otherMember)) restDrafted
    exact ⟨⟨legal, fun _ => restLegal⟩, steps.trans quiet.1, status.trans quiet.2.1,
      escalations.trans quiet.2.2⟩

private theorem Outcome.advance (outcome : Outcome stepId attempt payload) :
    state.advance payload = state.modifyStep stepId (endedView payload) := by
  cases outcome <;> rw [State.advance] <;> rfl

private theorem Outcome.legal
    (outcome : Outcome stepId attempt payload) (member : stepId ∈ rules.definition.stepIds)
    (running : (state.steps stepId).status = .running ∧
      (state.steps stepId).attempts = attempt) : Legal rules state time payload := by
  cases outcome with
  | completed _ _ => exact .completed member running.1 running.2.symm
  | failed _ _ _ => exact .failed member running.1 running.2.symm

theorem legal_results {stepId : ι → String} {attempt : ι → Nat}
    {notes : ι → List Payload} {outcome : ι → Payload} {items : List ι}
    (nodup : (items.map stepId).Nodup)
    (running : ∀ item ∈ items, stepId item ∈ rules.definition.stepIds ∧
      (state.steps (stepId item)).status = .running ∧
      (state.steps (stepId item)).attempts = attempt item)
    (noted : ∀ item ∈ items, ∀ payload ∈ notes item, Note (stepId item) (attempt item) payload)
    (ended : ∀ item ∈ items, Outcome (stepId item) (attempt item) (outcome item))
    (drafted : Drafted rules time (items.flatMap fun item => notes item ++ [outcome item]) events) :
    LegalBatch rules state events ∧ (state.AcceptsAll events →
      Untouched (items.map stepId) state (state.afterAll events) ∧
        ∀ item ∈ items, (state.afterAll events).steps (stepId item) =
          endedView (outcome item) (state.steps (stepId item))) := by
  refine legalBatch_flatMap
    (fun done next => Untouched (done.map stepId) state next ∧
      ∀ item ∈ done, next.steps (stepId item) =
        endedView (outcome item) (state.steps (stepId item)))
    ⟨.refl [] state, List.forall_mem_nil _⟩ ?_ drafted
  rintro before item after split middle group ⟨untouched, finished⟩ groupDrafted
  have notBefore := not_mem_before_of_split nodup split
  have listed : item ∈ items := by simp [split]
  obtain ⟨noteEvents, endEvents, rfl, noteDrafted, endDrafted⟩ := groupDrafted.eq_append
  obtain ⟨event, rest, rfl, payload, _, restDrafted⟩ := endDrafted.eq_cons
  obtain rfl := restDrafted.eq_nil
  obtain ⟨member, isRunning⟩ := running item listed
  rw [← untouched.steps _ notBefore] at isRunning
  obtain ⟨notesLegal, steps, status, escalations⟩ :=
    legal_notes member isRunning (noted item listed) noteDrafted
  set noted := middle.afterAll noteEvents
  have advanced : noted.advance event.payload =
      noted.modifyStep (stepId item) (endedView (outcome item)) := by
    rw [payload]
    exact (ended item listed).advance
  have legal : Legal rules noted event.occurredAt event.payload := by
    rw [payload]
    rw [← steps] at isRunning
    exact (ended item listed).legal member isRunning
  refine ⟨legalBatch_append.mpr ⟨notesLegal, fun _ => ⟨legal, fun _ => trivial⟩⟩, fun _ => ?_⟩
  rw [State.afterAll_append]
  change Untouched _ state (noted.after event) ∧ ∀ item ∈ _, (noted.after event).steps _ = _
  have notedUntouched : Untouched (before.map stepId) state noted :=
    ⟨status.trans untouched.status, fun other notListed => by
      rw [steps]; exact untouched.steps other notListed, escalations.trans untouched.escalations⟩
  constructor
  · rw [List.map_append]
    exact notedUntouched.modifyStep advanced
  · intro other otherMember
    rcases List.mem_append.mp otherMember with old | new
    · have different : stepId other ≠ stepId item := fun same =>
        notBefore (List.mem_map.mpr ⟨other, old, same⟩)
      rw [steps_after_of_ne different advanced, steps]
      exact finished other old
    · rw [List.mem_singleton] at new
      subst new
      rw [steps_after_self advanced, notedUntouched.steps _ notBefore]

/-! ## Retries -/

theorem legal_retries {stepId : ι → String} {attempt : ι → Nat} {runAt : ι → Time}
    {items : List ι} (nodup : (items.map stepId).Nodup)
    (failed : ∀ item ∈ items, stepId item ∈ rules.definition.stepIds ∧
      (state.steps (stepId item)).status = .failed)
    (drafted : Drafted rules time (items.map fun item =>
      .stepRetryScheduled (stepId item) (attempt item) (runAt item)) events) :
    LegalBatch rules state events ∧ (state.AcceptsAll events →
      Untouched (items.map stepId) state (state.afterAll events) ∧
        ∀ item ∈ items, (state.afterAll events).steps (stepId item) =
          { state.steps (stepId item) with nextRetryAt := some (runAt item) }) := by
  refine legalBatch_map
    (fun done next => Untouched (done.map stepId) state next ∧
      ∀ item ∈ done, next.steps (stepId item) =
        { state.steps (stepId item) with nextRetryAt := some (runAt item) })
    ⟨.refl [] state, List.forall_mem_nil _⟩ ?_ drafted
  rintro before item after split middle event ⟨untouched, scheduled⟩ payload
  have notBefore := not_mem_before_of_split nodup split
  obtain ⟨member, isFailed⟩ := failed item (by simp [split])
  have same := untouched.steps _ notBefore
  rw [← same] at isFailed
  have advanced : middle.advance event.payload = middle.modifyStep (stepId item) fun view =>
      { view with nextRetryAt := some (runAt item) } := by
    rw [payload, State.advance]
  refine ⟨?_, fun _ => ⟨?_, ?_⟩⟩
  · rw [payload]
    exact .retryScheduled member isFailed
  · rw [List.map_append]
    exact untouched.modifyStep advanced
  · intro other otherMember
    rcases List.mem_append.mp otherMember with old | new
    · have different : stepId other ≠ stepId item := fun same =>
        notBefore (List.mem_map.mpr ⟨other, old, same⟩)
      rw [steps_after_of_ne different advanced]
      exact scheduled other old
    · rw [List.mem_singleton] at new
      subst new
      rw [steps_after_self advanced, same]

/-! ## Escalations -/

/-- How an instance refers to an escalation. -/
def refOf (escalation : Escalation) : EscalationRef where
  escalationId := escalation.escalationId
  stepId := escalation.stepId
  reason := escalation.reason
  deadline := escalation.deadline

/-- Escalations have been raised, and nothing has happened to other steps. -/
structure Raised (state : State) (raised : List Escalation) (next : State) : Prop where
  status : next.status = state.status
  steps : ∀ stepId ∉ raised.map Escalation.stepId, next.steps stepId = state.steps stepId
  escalations : next.escalations = state.escalations ++ raised.map refOf
  started : ∀ stepId, next.Started stepId ↔ state.Started stepId
  held : ∀ escalation ∈ raised, escalation.stepId ≠ "" →
    (next.steps escalation.stepId).status = .waitingApproval

namespace Raised

variable {raised : List Escalation} {middle next : State} {stepId : String}

theorem refl (state : State) : Raised state [] state :=
  ⟨rfl, fun _ _ => rfl, (List.append_nil _).symm, fun _ => Iff.rfl,
    List.forall_mem_nil _⟩

variable (done : Raised state raised next)

include done

theorem not_open (notRaised : stepId ∉ raised.map Escalation.stepId)
    (notOpen : ¬ state.Open stepId) :
    ¬ next.Open stepId := by
  rintro ⟨ref, member, sameStep, unresolved⟩
  rw [done.escalations, List.mem_append] at member
  rcases member with old | new
  · exact notOpen ⟨ref, old, sameStep, unresolved⟩
  · obtain ⟨escalation, escalationMember, rfl⟩ := List.mem_map.mp new
    exact notRaised (List.mem_map.mpr ⟨escalation, escalationMember, sameStep⟩)

theorem not_granted (notGranted : ¬ state.Granted stepId) : ¬ next.Granted stepId := by
  rintro ⟨ref, member, sameStep, resolved⟩
  rw [done.escalations, List.mem_append] at member
  rcases member with old | new
  · exact notGranted ⟨ref, old, sameStep, resolved⟩
  · obtain ⟨escalation, _, rfl⟩ := List.mem_map.mp new
    cases resolved

theorem fresh {escalationId : String}
    (notRaised : escalationId ∉ raised.map Escalation.escalationId)
    (isFresh : state.Fresh escalationId) : next.Fresh escalationId := by
  unfold State.Fresh
  rw [done.escalations, List.map_append, List.mem_append, not_or, List.map_map]
  exact ⟨isFresh, notRaised⟩

omit done

/-- One more escalation, after its step has been made ready for it. -/
theorem concat {escalation : Escalation} (done : Raised state raised middle)
    (different : escalation.stepId ∉ raised.map Escalation.stepId)
    (untouched : Untouched [escalation.stepId] middle next)
    (sameStarted : ∀ stepId, next.Started stepId ↔ middle.Started stepId)
    (payload : event.payload = .escalationRaised escalation) :
    Raised state (raised ++ [escalation]) (next.after event) := by
  have advanced : (next.after event).steps = (next.raiseEscalation escalation).steps ∧
      (next.after event).status = (next.raiseEscalation escalation).status ∧
      (next.after event).escalations = (next.raiseEscalation escalation).escalations := by
    unfold State.after
    rw [payload]
    exact ⟨rfl, rfl, rfl⟩
  have unchanged (other : String) (isOther : other ≠ escalation.stepId) :
      (next.after event).steps other = middle.steps other := by
    rw [advanced.1, ← untouched.steps other (by simpa using isOther)]
    unfold State.raiseEscalation
    by_cases workflowLevel : escalation.stepId = ""
    · simp [workflowLevel]
    · simp only [workflowLevel, if_false]
      rw [steps_modifyStep, if_neg isOther]
  constructor
  case status => rw [advanced.2.1, State.status_raiseEscalation, untouched.status, done.status]
  case steps =>
    intro other notRaised
    rw [List.map_append, List.mem_append, not_or] at notRaised
    have isOther : other ≠ escalation.stepId := by simpa using notRaised.2
    rw [unchanged other isOther, done.steps other notRaised.1]
  case escalations =>
    rw [advanced.2.2, List.map_append, ← List.append_assoc, ← done.escalations,
      ← untouched.escalations]
    rfl
  case started =>
    intro other
    rw [started_after, payload, sameStarted, done.started other]
    exact or_iff_left id
  case held =>
    intro other member stepLevel
    rcases List.mem_append.mp member with old | new
    · have isOther : other.stepId ≠ escalation.stepId := fun same =>
        different (List.mem_map.mpr ⟨other, old, same⟩)
      rw [unchanged _ isOther]
      exact done.held other old stepLevel
    · rw [List.mem_singleton] at new
      subst new
      rw [advanced.1]
      simp [State.raiseEscalation, stepLevel, State.modifyStep]

end Raised

/-- Reviews of completed steps. -/
theorem legal_reviews {reviews : List Escalation} (runs : state.status = .running)
    (distinctSteps : (reviews.map Escalation.stepId).Nodup)
    (distinctIds : (reviews.map Escalation.escalationId).Nodup)
    (reviewable : ∀ review ∈ reviews, review.stepId ∈ rules.definition.stepIds ∧
      (state.steps review.stepId).status = .completed ∧
      (¬ state.Open review.stepId ∨ Loose rules state review.stepId) ∧
      state.Fresh review.escalationId ∧ (¬ rules.requeues → ∀ step ∈ rules.definition.steps,
        review.stepId ∈ step.dependencies → ¬ state.Started step.stepId))
    (drafted : Drafted rules time (reviews.map .escalationRaised) events) :
    LegalBatch rules state events ∧
      (state.AcceptsAll events → Raised state reviews (state.afterAll events)) := by
  refine legalBatch_map (Raised state) (.refl state) ?_ drafted
  intro before review after split middle event done payload
  have notBefore := not_mem_before_of_split distinctSteps split
  obtain ⟨member, completed, closed, fresh, noDependents⟩ := reviewable review (by simp [split])
  rw [← done.steps _ notBefore] at completed
  refine ⟨?_, fun _ => done.concat notBefore (.refl _ middle) (fun _ => Iff.rfl) payload⟩
  rw [payload]
  apply Legal.reviewRaised member completed
  · rcases closed with notOpen | loose
    · exact .inl (done.not_open notBefore notOpen)
    · exact .inr ⟨loose.1, (done.started _).mpr loose.2⟩
  · exact done.fresh (not_mem_before_of_split distinctIds split) fresh
  · exact done.status.trans runs
  · intro noRequeue step stepMember depends
    rw [done.started]
    exact noDependents noRequeue step stepMember depends

/-- Approvals of steps that are about to run. -/
theorem legal_approvals {approvals : List Escalation} (runs : state.status = .running)
    (distinctSteps : (approvals.map Escalation.stepId).Nodup)
    (distinctIds : (approvals.map Escalation.escalationId).Nodup) (needed : ∀ approval ∈ approvals,
      (∃ step ∈ rules.definition.steps, approval.stepId = step.stepId ∧
        step.requiresApproval = true) ∧ ((state.steps approval.stepId).status = .pending ∨
        (state.steps approval.stepId).status = .ready ∨
        (state.steps approval.stepId).status = .failed) ∧
      ¬ state.Open approval.stepId ∧ ¬ state.Granted approval.stepId ∧
      state.Fresh approval.escalationId)
    (drafted : Drafted rules time (approvals.flatMap fun approval =>
      readyPayloads state approval.stepId ++ [.escalationRaised approval]) events) :
    LegalBatch rules state events ∧
      (state.AcceptsAll events → Raised state approvals (state.afterAll events)) := by
  refine legalBatch_flatMap (Raised state) (.refl state) ?_ drafted
  intro before approval after split middle group done groupDrafted
  have notBefore := not_mem_before_of_split distinctSteps split
  obtain ⟨⟨step, member, sameStep, gated⟩, runnable, notOpen, notGranted, fresh⟩ :=
    needed approval (by simp [split])
  have same := done.steps _ notBefore
  obtain ⟨readied, raised, rfl, readiedDrafted, raisedDrafted⟩ := groupDrafted.eq_append
  obtain ⟨event, rest, rfl, payload, _, restDrafted⟩ := raisedDrafted.eq_cons
  obtain rfl := restDrafted.eq_nil
  have readiedDrafted' : Drafted rules time (readyPayloads middle step.stepId) readied := by
    unfold readyPayloads at readiedDrafted ⊢
    rwa [← sameStep, same]
  obtain ⟨readiedLegal, untouched, _, ready, _⟩ :=
    legal_readied member (done.status.trans runs) rfl readiedDrafted' (.refl [] middle)
  rw [← sameStep] at untouched ready
  have parkedStarted (other : String) :
      (middle.afterAll readied).Started other ↔ middle.Started other :=
    started_afterAll_iff
      (readiedDrafted.forall_mem fun _ listed => not_starts_of_mem_readyPayloads listed)
  set parked := middle.afterAll readied
  have parkedStatus : (parked.steps approval.stepId).status = .ready ∨
      (parked.steps approval.stepId).status = .failed := by
    rw [ready, same]
    rcases runnable with found | found | found <;> simp [found]
  have legal : Legal rules parked event.occurredAt event.payload := by
    rw [payload]
    rw [sameStep] at parkedStatus
    apply Legal.approvalRaised member sameStep gated parkedStatus
    · rw [← sameStep, open_iff_of_escalations_eq untouched.escalations]
      exact done.not_open notBefore notOpen
    · rw [← sameStep, granted_iff_of_escalations_eq untouched.escalations]
      exact done.not_granted notGranted
    · unfold State.Fresh
      rw [untouched.escalations]
      exact done.fresh (not_mem_before_of_split distinctIds split) fresh
    · exact untouched.status.trans (done.status.trans runs)
  refine ⟨legalBatch_append.mpr ⟨readiedLegal, fun _ => ⟨legal, fun _ => trivial⟩⟩, fun _ => ?_⟩
  rw [State.afterAll_append]
  exact done.concat notBefore untouched parkedStarted payload

/-! ## Roll-back -/

/-- Undone side effects and compensated steps. -/
theorem legal_compensations {ι κ : Type} (effect : κ → String × String × JsonDict)
    {stepId : ι → String} {action : ι → String} {effects : List κ} {items : List ι}
    (runs : state.status = .running) (nodup : (items.map stepId).Nodup)
    (completed : ∀ item ∈ items, stepId item ∈ rules.definition.stepIds ∧
      (state.steps (stepId item)).status = .completed) (drafted : Drafted rules time
      (effects.map (fun undone => .sideEffectCompensated (effect undone).1 (effect undone).2.1
          (effect undone).2.2) ++
        items.map fun item => .stepCompensated (stepId item) (action item)) events) :
    LegalBatch rules state events ∧
      (state.AcceptsAll events → (state.afterAll events).status = .running) := by
  obtain ⟨undoneEvents, stepEvents, rfl, undoneDrafted, stepDrafted⟩ := drafted.eq_append
  obtain ⟨undoneLegal, undone⟩ := legalBatch_map
    (fun _ next => Untouched [] state next) (.refl [] state)
    (fun _ undone _ _ middle event untouched payload => by
      rw [payload]
      refine ⟨.effectCompensated, fun _ => ?_⟩
      unfold State.after
      rw [payload]
      exact ⟨untouched.status, untouched.steps, untouched.escalations⟩) undoneDrafted
  have steps (accepted : state.AcceptsAll undoneEvents) := legalBatch_map
    (fun done next => Untouched (done.map stepId) state next) (undone accepted)
    (fun before item after split middle event untouched payload => by
      have notBefore := not_mem_before_of_split nodup split
      obtain ⟨member, isCompleted⟩ := completed item (by simp [split])
      rw [← untouched.steps _ notBefore] at isCompleted
      rw [payload]
      refine ⟨.compensated member isCompleted (untouched.status.trans runs), fun _ => ?_⟩
      rw [List.map_append]
      apply untouched.modifyStep
      rw [payload, State.advance]) stepDrafted
  refine ⟨legalBatch_append.mpr ⟨undoneLegal, fun accepted => (steps accepted).1⟩, ?_⟩
  intro accepted
  obtain ⟨undoneAccepted, stepsAccepted⟩ := acceptsAll_append.mp accepted
  rw [State.afterAll_append]
  exact ((steps undoneAccepted).2 stepsAccepted).status.trans runs

end AgentForge.Protocol
