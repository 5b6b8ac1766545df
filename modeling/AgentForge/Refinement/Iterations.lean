import AgentForge.Engine.Footprint
import AgentForge.Engine.PlanProgress
import AgentForge.Refinement.Settling
import Mathlib.Algebra.Order.BigOperators.Group.List

/-!
# How often the loop of a drive goes round

An iteration that is followed by another one has woken the instance or
dispatched a wave, and a wave either ends attempts of steps that have attempts
left, or leaves a state in which the next iteration returns.  The instance in
memory decides this alone: of its surroundings the argument uses only that a
committed append hands back what it was given.
-/

namespace AgentForge.Refinement

open Domain Engine Events Library Protocol

/-! ## One step of the view, payload by payload -/

/-- The step that an event rewrites. -/
def rewrites : Payload → Option String
  | .workflowRequeued stepId _ _ => stepId
  | .stepStatusChanged stepId _ _ _ | .stepStarted stepId _ _ _ | .stepCompleted stepId _ _ _
  | .stepFailed stepId _ _ _ _ | .stepRetryScheduled stepId _ _ | .stepSkipped stepId _
  | .stepCompensated stepId _ => some stepId
  | .escalationRaised escalation => some escalation.stepId
  | _ => none

/-- What an event makes of one step. -/
def track (stepId : String) (step : StepView) (payload : Payload) : StepView :=
  (({ State.initial with steps := fun _ => step } : State).advance payload).steps stepId

theorem steps_advance (state : State) (payload : Payload) (stepId : String) :
    (state.advance payload).steps stepId = track stepId (state.steps stepId) payload := by
  unfold track
  cases payload with
  | workflowRequeued requeued _ _ =>
    cases requeued with
    | none => rfl
    | some requeued =>
      by_cases same : stepId = requeued
      · subst same
        simp [State.advance, State.modifyStep]
      · simp [State.advance, State.modifyStep, same]
  | escalationRaised escalation =>
    by_cases workflowLevel : escalation.stepId = ""
    · simp [State.advance, State.raiseEscalation, workflowLevel]
    · by_cases same : stepId = escalation.stepId
      · subst same
        simp [State.advance, State.raiseEscalation, workflowLevel, State.modifyStep]
      · simp [State.advance, State.raiseEscalation, workflowLevel, State.modifyStep, same]
  | stepStatusChanged other | stepStarted other | stepCompleted other | stepFailed other
  | stepRetryScheduled other | stepSkipped other | stepCompensated other =>
    by_cases same : stepId = other
    · subst same
      simp [State.advance, State.modifyStep]
    · simp [State.advance, State.modifyStep, same]
  | _ => rfl

theorem track_of_ne {stepId : String} {payload : Payload} (other : rewrites payload ≠ some stepId)
    (step : StepView) : track stepId step payload = step := by
  unfold track
  cases payload with
  | workflowRequeued requeued _ _ =>
    cases requeued with
    | none => rfl
    | some requeued =>
      have different : stepId ≠ requeued := fun same => other (by simp [rewrites, same])
      simp [State.advance, State.modifyStep, different]
  | escalationRaised escalation =>
    have different : stepId ≠ escalation.stepId := fun same => other (by simp [rewrites, same])
    by_cases workflowLevel : escalation.stepId = ""
    · simp [State.advance, State.raiseEscalation, workflowLevel]
    · simp [State.advance, State.raiseEscalation, workflowLevel, State.modifyStep, different]
  | stepStatusChanged subject | stepStarted subject | stepCompleted subject | stepFailed subject
  | stepRetryScheduled subject | stepSkipped subject | stepCompensated subject =>
    have different : stepId ≠ subject := fun same => other (by simp [rewrites, same])
    simp [State.advance, State.modifyStep, different]
  | _ => rfl

theorem foldl_track_of_ne {stepId : String} {payloads : List Payload}
    (others : ∀ payload ∈ payloads, rewrites payload ≠ some stepId) (step : StepView) :
    payloads.foldl (track stepId) step = step := by
  induction payloads generalizing step with
  | nil => rfl
  | cons payload rest ih =>
    rw [List.foldl_cons, track_of_ne (others payload List.mem_cons_self)]
    exact ih (fun other member => others other (List.mem_cons_of_mem _ member)) step

theorem steps_afterAll (state : State) (events : List Event) (stepId : String) :
    (state.afterAll events).steps stepId =
      (events.map Event.payload).foldl (track stepId) (state.steps stepId) := by
  induction events generalizing state with
  | nil => rfl
  | cons event rest ih =>
    change ((state.after event).afterAll rest).steps stepId = _
    rw [ih (state.after event), List.map_cons, List.foldl_cons, ← steps_advance]
    rfl

/-- What an event makes of the status. -/
def trackStatus (status : WorkflowStatus) (payload : Payload) : WorkflowStatus :=
  (({ State.initial with status := status } : State).advance payload).status

theorem status_afterAll (state : State) (events : List Event) : (state.afterAll events).status =
      (events.map Event.payload).foldl trackStatus state.status := by
  induction events generalizing state with
  | nil => rfl
  | cons event rest ih =>
    change ((state.after event).afterAll rest).status = _
    rw [ih (state.after event), List.map_cons, List.foldl_cons]
    congr 1
    change (state.advance event.payload).status = _
    unfold trackStatus
    cases event.payload with
    | workflowRequeued requeued _ _ => cases requeued <;> rfl
    | escalationRaised escalation => simp [State.advance]
    | _ => rfl

/-- Groups of events about distinct steps: a step only sees its own group. -/
theorem foldl_track_flatMap {ι : Type} {items : List ι} {key : ι → String}
    {payloads : ι → List Payload} (nodup : (items.map key).Nodup)
    (own : ∀ item ∈ items, ∀ payload ∈ payloads item, ∀ stepId,
      rewrites payload = some stepId → stepId = key item)
    {item : ι} (member : item ∈ items) (step : StepView) :
    (items.flatMap payloads).foldl (track (key item)) step =
      (payloads item).foldl (track (key item)) step := by
  obtain ⟨before, after, split⟩ := List.append_of_mem member
  have apart : ∀ other ∈ before ++ after, key other ≠ key item := by
    rw [split, List.map_append, List.map_cons, List.nodup_middle, ← List.map_append] at nodup
    intro other listed same
    exact (List.nodup_cons.mp nodup).1 (same ▸ List.mem_map_of_mem listed)
  have outside : ∀ others ⊆ before ++ after, ∀ step : StepView,
      (others.flatMap payloads).foldl (track (key item)) step = step := by
    intro others subset
    apply foldl_track_of_ne
    intro payload listed mine
    obtain ⟨other, otherListed, written⟩ := List.mem_flatMap.mp listed
    have kept := subset otherListed
    have among : other ∈ items := by
      rw [split]
      rcases List.mem_append.mp kept with left | right
      · exact List.mem_append_left _ left
      · exact List.mem_append_right _ (List.mem_cons_of_mem _ right)
    exact apart other kept (own other among payload written _ mine).symm
  rw [split, List.flatMap_append, List.flatMap_cons, List.foldl_append, List.foldl_append,
    outside before (List.subset_append_left _ _), outside after (List.subset_append_right _ _)]

/-! ## Batches folded onto an instance -/

/-- The instance after events with these payloads. -/
def Folded (payloads : List Payload) (inst next : WorkflowInstance) : Prop :=
  ∃ events, events.map Event.payload = payloads ∧ (view [] inst).AcceptsAll events ∧
    view events next = (view [] inst).afterAll events

namespace Folded

variable {payloads : List Payload} {inst next : WorkflowInstance}

variable (folded : Folded payloads inst next)

include folded

theorem step (stepId : String) : StepView.of (next.stepOr stepId) =
      payloads.foldl (track stepId) (.of (inst.stepOr stepId)) := by
  obtain ⟨events, rfl, _, after⟩ := folded
  change (view events next).steps stepId = _
  rw [after]
  exact steps_afterAll (view [] inst) events stepId

theorem step_of_ne {stepId : String}
    (others : ∀ payload ∈ payloads, rewrites payload ≠ some stepId) :
    StepView.of (next.stepOr stepId) = .of (inst.stepOr stepId) := by
  rw [folded.step, foldl_track_of_ne others]

theorem status : next.status = payloads.foldl trackStatus inst.status := by
  obtain ⟨events, rfl, _, after⟩ := folded
  change (view events next).status = _
  rw [after]
  exact status_afterAll (view [] inst) events

theorem status_of_still
    (still : ∀ payload ∈ payloads, ∀ status, trackStatus status payload = status) :
    next.status = inst.status := by
  rw [folded.status]
  generalize inst.status = status
  clear folded
  induction payloads with
  | nil => rfl
  | cons payload rest ih =>
    rw [List.foldl_cons, still payload List.mem_cons_self]
    exact ih fun other member => still other (List.mem_cons_of_mem _ member)

end Folded

/-! ## What code returns -/

section Code

variable {Env α β : Type} {sem : Semantics Env Op Op.Result} {definition : WorkflowDefinition}
  {inst : WorkflowInstance} {results : List AttemptResult} {payload : Payload} {code : Code α}
  {next : α → Code β} {post : β → Prop} {dispatch : List (String × Nat)} {now : Time}
  {body : α → Code β}

/-- A committed append hands its drafts back, renumbered. -/
def Renumbers (sem : Semantics Env Op Op.Result) : Prop :=
  ∀ world next instanceId tenantId drafts version guarded wakeup count events,
    sem world (.appendNew instanceId tenantId drafts version guarded wakeup)
      (.ok (count, events)) next → events.map Event.payload = drafts.map Event.payload

/-- What the code returns, if it returns. -/
def Returns (sem : Semantics Env Op Op.Result) (post : α → Prop) (code : Code α) : Prop :=
  ∀ world, Program.Safe sem (fun _ _ => True) (fun value _ => post value) (fun _ _ => True)
    code world

theorem returns_any (code : Code α) : Returns sem (fun _ => True) code :=
  fun world => Program.safe_of_forall (fun _ _ => trivial) (fun _ _ => trivial)
    (fun _ _ => trivial) code world

theorem returns_pure {post : α → Prop} {value : α} (holds : post value) :
    Returns sem post (pure value) :=
  fun _ => holds

theorem Returns.bind {post : α → Prop} {postNext : β → Prop} (first : Returns sem post code)
    (second : ∀ value, post value → Returns sem postNext (next value)) :
    Returns sem postNext (code >>= next) :=
  fun world => (first world).bind fun value middle holds => second value holds middle

theorem Returns.bind_bind {γ : Type} {postNext : γ → Prop} {second : α → Code β}
    {third : β → Code γ} (first : Returns sem post (code >>= second))
    (next : ∀ value, post value → Returns sem postNext (third value)) :
    Returns sem postNext (code >>= fun value => second value >>= third) :=
  fun world => (first world).bind_bind fun value middle holds => next value holds middle

theorem Returns.imp {post postNext : α → Prop} (first : Returns sem post code)
    (weaken : ∀ value, post value → postNext value) : Returns sem postNext code :=
  fun world => (first world).imp fun value _ holds => weaken value holds

theorem returns_lift (result : Except Exn α) :
    Returns sem (fun value => result = .ok value) (lift result) := by
  intro world
  cases result with
  | ok value => exact rfl
  | error failure => trivial

theorem returns_lift_bind {result : Except Exn α}
    (second : ∀ value, result = .ok value → Returns sem post (next value)) :
    Returns sem post (lift result >>= next) :=
  (returns_lift result).bind second

theorem Returns.any_bind (second : ∀ value, Returns sem post (next value)) :
    Returns sem post (code >>= next) :=
  (returns_any code).bind fun value _ => second value

theorem returns_traverse {post : α → β → Prop}
    (each : ∀ element, Returns sem (post element) (body element)) (elements : List α) :
    Returns sem (List.Forall₂ post elements) (Program.traverse body elements) := by
  induction elements with
  | nil => exact returns_pure .nil
  | cons element rest ih =>
    refine (each element).bind fun value holds => ih.bind fun values others => ?_
    exact returns_pure (.cons holds others)

theorem returns_gather {post : α → β → Prop}
    (each : ∀ element, Returns sem (post element) (body element)) (elements : List α) :
    Returns sem (List.Forall₂ post elements) (Program.gather body elements) := by
  intro world
  refine (Program.safe_gather (fun done outcomes _ => List.Forall₂
    (fun element outcome => ∀ value, outcome = .ok value → post element value) done outcomes)
    .nil ?_ fun _ _ _ _ _ => trivial).imp ?_
  · intro before element after split outcomes world' all
    refine (each element world').mono (fun _ _ holds => holds) ?_ ?_
    · intro value _ holds
      refine List.rel_append all (.cons ?_ .nil)
      rintro _ ⟨⟩
      exact holds
    · intro failure _ _
      exact List.rel_append all (.cons nofun .nil)
  · intro values _ all
    exact (List.forall₂_map_right_iff.mp all).imp fun _ value holds => holds value rfl

theorem returns_draftEvent (payload : Payload) :
    Returns sem (fun event => event.payload = payload) (draftEvent inst payload) :=
  .any_bind fun _ => .any_bind fun _ => returns_pure rfl

theorem returns_drafts (payloads : List Payload) :
    Returns sem (fun events => events.map Event.payload = payloads)
      (Program.traverse (draftEvent inst) payloads) := by
  refine (returns_traverse returns_draftEvent payloads).imp fun events all => ?_
  induction all with
  | nil => rfl
  | cons same _ ih => rw [List.map_cons, same, ih]

theorem returns_append (renumbers : Renumbers sem) (drafts : List Event) (wakeup : Option Time) :
    Returns sem (Folded (drafts.map Event.payload) inst)
      (append definition inst drafts wakeup) := by
  unfold append
  by_cases empty : drafts = []
  · rw [if_pos (by simp [empty])]
    subst empty
    exact returns_pure ⟨[], rfl, trivial, rfl⟩
  · rw [if_neg (by simpa using empty)]
    refine fun world => ⟨trivial, fun response middle answered => ?_⟩
    cases response with
    | error failure => trivial
    | ok appended =>
      refine ((returns_lift (foldOnto definition inst appended.2)).imp ?_) middle
      intro next folded
      unfold foldOnto at folded
      cases found : fold appended.2 (some definition) (some inst) with
      | error failure =>
        rw [found] at folded
        cases folded
      | ok final =>
        rw [found] at folded
        cases folded
        exact ⟨appended.2, renumbers _ _ _ _ _ _ _ _ _ _ answered,
          view_of_fold_batch found⟩

/-! ## The stages of a wave -/

theorem returns_readyEvents (stepId : String) :
    Returns sem (fun events => events.map Event.payload = readyPayloads (view [] inst) stepId)
      (readyEvents inst stepId) := by
  refine returns_lift_bind fun state found => ?_
  have status : ((view [] inst).steps stepId).status = state.status := by
    rw [← stepState_eq_ok found]
    rfl
  unfold readyPayloads
  rw [status]
  by_cases pending : state.status = .pending
  · rw [if_pos pending, if_pos pending]
    exact (returns_draftEvent _).bind fun event same => returns_pure (by simp [same])
  · rw [if_neg pending, if_neg pending]
    exact returns_pure rfl

theorem returns_starts (workerId : String) (dispatch : List (String × Nat)) :
    Returns sem (fun groups => groups.flatten.map Event.payload =
        dispatch.flatMap (startPayloads (view [] inst) workerId))
      (Program.traverse (startEvents inst workerId) dispatch) := by
  have each : ∀ candidate, Returns sem
      (fun events => events.map Event.payload = startPayloads (view [] inst) workerId candidate)
      (startEvents inst workerId candidate) := by
    intro candidate
    refine (returns_readyEvents candidate.1).bind fun readied ready => ?_
    refine (returns_draftEvent _).bind fun started same => returns_pure ?_
    rw [List.map_append, ready, List.map_singleton, same, startPayloads]
  refine (returns_traverse each dispatch).imp fun groups all => ?_
  induction all with
  | nil => rfl
  | cons same _ ih => rw [List.flatten_cons, List.map_append, same, ih, List.flatMap_cons]

theorem rewrites_of_mem_startPayloads {state : State} {workerId : String} {candidate : String × Nat}
    (listed : payload ∈ startPayloads state workerId candidate) :
    rewrites payload = some candidate.1 ∧ ∀ status, trackStatus status payload = status := by
  rcases List.mem_append.mp listed with readied | started
  · unfold readyPayloads at readied
    split at readied
    · rw [List.mem_singleton.mp readied]
      exact ⟨rfl, fun _ => rfl⟩
    · cases readied
  · rw [List.mem_singleton.mp started]
    exact ⟨rfl, fun _ => rfl⟩

theorem track_startPayloads (state : State) (workerId : String) (candidate : String × Nat)
    (step : StepView) : (startPayloads state workerId candidate).foldl (track candidate.1) step =
      { step with status := .running, attempts := candidate.2, nextRetryAt := none } := by
  unfold startPayloads readyPayloads
  split <;> simp [track, State.advance, State.modifyStep]

theorem returns_runOne (config : Config) (budget : Option BudgetView) (candidate : String × Nat) :
    Returns sem (ResultOf definition candidate)
      (runOne config definition inst budget candidate) := by
  refine returns_lift_bind fun step found => returns_lift_bind fun state _ => ?_
  obtain ⟨member, same⟩ := stepOf_eq_ok found
  refine .any_bind fun _ => .any_bind fun outcome => .any_bind fun _ => .any_bind fun _ => ?_
  exact returns_pure ⟨rfl, member, same⟩

theorem rewrites_of_mem_results (listed : payload ∈ results.flatMap resultPayloads) :
    (∀ stepId, rewrites payload = some stepId → stepId ∈ results.map AttemptResult.stepId) ∧
      ∀ status, trackStatus status payload = status := by
  obtain ⟨result, member, note | rfl⟩ := mem_resultPayloads listed
  · cases note <;> exact ⟨nofun, fun _ => rfl⟩
  · have listed : result.stepId ∈ results.map AttemptResult.stepId := List.mem_map_of_mem member
    unfold outcomePayload
    split <;> exact ⟨fun _ same => Option.some.inj same ▸ listed, fun _ => rfl⟩

theorem track_resultPayloads (result : AttemptResult) (step : StepView) :
    (resultPayloads result).foldl (track result.stepId) step =
      endedView (outcomePayload result) step := by
  have notes : ∀ payload ∈ notesOf result, rewrites payload ≠ some result.stepId := by
    intro payload listed
    cases note_of_mem_notesOf listed <;> nofun
  change (notesOf result ++ [outcomePayload result]).foldl _ step = _
  rw [List.foldl_append, foldl_track_of_ne notes]
  unfold outcomePayload
  split <;> simp [track, State.advance, State.modifyStep, endedView]

theorem rewrites_of_mem_retries (listed : payload ∈ results.filterMap (retryPayload now)) :
    ∃ result ∈ results, retryDue result = true ∧ ∃ runAt,
      payload = .stepRetryScheduled result.stepId (result.attempt + 1) runAt := by
  rw [filterMap_retryPayload] at listed
  obtain ⟨result, member, rfl⟩ := List.mem_map.mp listed
  obtain ⟨member, due⟩ := List.mem_filter.mp member
  exact ⟨result, member, due, _, rfl⟩

/-- Scheduling retries changes nothing of a step but when it runs next. -/
theorem track_retries {stepId : String} {payloads : List Payload}
    (retries : ∀ payload ∈ payloads, ∃ other attempt runAt,
      payload = .stepRetryScheduled other attempt runAt) (step : StepView) :
    ∃ nextRetryAt, payloads.foldl (track stepId) step =
      { step with nextRetryAt := nextRetryAt } := by
  induction payloads generalizing step with
  | nil => exact ⟨step.nextRetryAt, rfl⟩
  | cons payload rest ih =>
    obtain ⟨other, attempt, runAt, rfl⟩ := retries _ List.mem_cons_self
    obtain ⟨nextRetryAt, found⟩ := ih
      (fun payload member => retries payload (List.mem_cons_of_mem _ member))
      (track stepId step (.stepRetryScheduled other attempt runAt))
    refine ⟨nextRetryAt, ?_⟩
    rw [List.foldl_cons, found]
    by_cases same : stepId = other
    · subst same
      simp [track, State.advance, State.modifyStep]
    · simp [track, State.advance, State.modifyStep, same]

/-- How a wave leaves one of its steps, if no review parks the instance. -/
structure Attempted (step : WorkflowStep) (attempt : Nat) (after : StepView) : Prop where
  attempts : after.attempts = attempt
  ended : after.status = .completed ∨ after.status = .failed ∧
    (after.nextRetryAt = none ∨ attempt ≤ step.retryPolicy.maxRetries)

/-- What a wave makes of the instance. -/
structure WaveEffect (definition : WorkflowDefinition) (inst : WorkflowInstance)
    (dispatch : List (String × Nat)) (next : WorkflowInstance) : Prop where
  others : ∀ stepId ∉ dispatch.map Prod.fst,
    StepView.of (next.stepOr stepId) = .of (inst.stepOr stepId)
  outcome : next.status = .waitingApproval ∨ next.status = inst.status ∧
    ∀ candidate ∈ dispatch, ∃ step ∈ definition.steps, step.stepId = candidate.1 ∧
      Attempted step candidate.2 (.of (next.stepOr candidate.1))

/-- The retries of a wave: a step whose attempt earned none keeps its timer. -/
theorem Attempted.of_retries {result : AttemptResult} {before : StepView}
    (nodup : (results.map AttemptResult.stepId).Nodup) (member : result ∈ results)
    (attempts : before.attempts = result.attempt)
    (ended : before.status = .completed ∨ before.status = .failed)
    (untimed : before.nextRetryAt = none) : Attempted result.step result.attempt
      ((results.filterMap (retryPayload now)).foldl (track result.stepId) before) := by
  have retries : ∀ payload ∈ results.filterMap (retryPayload now), ∃ other attempt runAt,
      payload = .stepRetryScheduled other attempt runAt := by
    intro payload listed
    obtain ⟨other, _, _, runAt, rfl⟩ := rewrites_of_mem_retries listed
    exact ⟨_, _, _, rfl⟩
  obtain ⟨nextRetryAt, found⟩ := @track_retries result.stepId _ retries before
  by_cases due : retryDue result = true
  · rw [found]
    refine ⟨attempts, ?_⟩
    rcases ended with completed | failed
    · exact .inl completed
    · exact .inr ⟨failed, .inr (le_of_retryDue due)⟩
  · rw [foldl_track_of_ne]
    · refine ⟨attempts, ended.imp_right fun failed => ⟨failed, .inl untimed⟩⟩
    · intro payload listed same
      obtain ⟨other, otherMember, otherDue, runAt, rfl⟩ := rewrites_of_mem_retries listed
      have equal : other = result :=
        List.inj_on_of_nodup_map nodup otherMember member (Option.some.inj same)
      exact due (equal ▸ otherDue)

/-- Reviews park the instance and hold steps of the wave only. -/
theorem returns_raiseReviewEscalations (renumbers : Renumbers sem)
    (reviews : List (String × ReviewRequest)) :
    Returns sem (fun next => next.status = .waitingApproval ∧ ∀ stepId ∉ reviews.map Prod.fst,
          StepView.of (next.stepOr stepId) = .of (inst.stepOr stepId))
      (raiseReviewEscalations definition inst reviews) := by
  refine .any_bind fun now => ?_
  have each : ∀ review, Returns sem
      (fun event => ∃ escalation, event.payload = .escalationRaised escalation ∧
        escalation.stepId = review.1) (reviewEvent inst now review) :=
    fun review => .any_bind fun _ => (returns_draftEvent _).imp fun _ same => ⟨_, same, rfl⟩
  refine (returns_traverse each reviews).bind fun raised all => ?_
  refine (returns_draftEvent _).bind fun parked same => ?_
  refine (returns_append renumbers _ none).imp fun next folded => ?_
  rw [List.map_append, List.map_singleton, same] at folded
  refine ⟨?_, fun stepId notListed => folded.step_of_ne ?_⟩
  · rw [folded.status, List.foldl_append]
    rfl
  · intro payload listed
    rcases List.mem_append.mp listed with mine | last
    · obtain ⟨event, member, rfl⟩ := List.mem_map.mp mine
      obtain ⟨review, reviewMember, escalation, raisedAs, stepOk⟩ :=
        exists_of_forall₂ all member
      rw [raisedAs]
      intro written
      rw [rewrites, stepOk] at written
      exact notListed (Option.some.inj written ▸ List.mem_map_of_mem reviewMember)
    · rw [List.mem_singleton.mp last]
      nofun

/-- The steps of the wave are running. -/
structure WaveLaunched (inst : WorkflowInstance) (dispatch : List (String × Nat))
    (next : WorkflowInstance) : Prop where
  status : next.status = inst.status
  others : ∀ stepId ∉ dispatch.map Prod.fst,
    StepView.of (next.stepOr stepId) = .of (inst.stepOr stepId)
  launched : ∀ candidate ∈ dispatch, (next.stepOr candidate.1).attempts = candidate.2 ∧
    (next.stepOr candidate.1).nextRetryAt = none

theorem returns_launch (renumbers : Renumbers sem) (workerId : String)
    (nodup : (dispatch.map Prod.fst).Nodup) :
    Returns sem (WaveLaunched inst dispatch)
      (do
        let started ← Program.traverse (startEvents inst workerId) dispatch
        append definition inst started.flatten) := by
  refine (returns_starts workerId dispatch).bind fun groups payloads => ?_
  refine (returns_append renumbers _ none).imp fun next folded => ?_
  rw [payloads] at folded
  constructor
  case status =>
    apply folded.status_of_still
    intro payload listed
    obtain ⟨candidate, _, mine⟩ := List.mem_flatMap.mp listed
    exact (rewrites_of_mem_startPayloads mine).2
  case others =>
    intro stepId notListed
    apply folded.step_of_ne
    intro payload listed same
    obtain ⟨candidate, member, mine⟩ := List.mem_flatMap.mp listed
    rw [(rewrites_of_mem_startPayloads mine).1] at same
    exact notListed (Option.some.inj same ▸ List.mem_map_of_mem member)
  case launched =>
    intro candidate member
    have after := folded.step candidate.1
    rw [foldl_track_flatMap nodup (fun item _ payload mine stepId same => by
      rw [(rewrites_of_mem_startPayloads mine).1] at same
      exact (Option.some.inj same).symm) member, track_startPayloads] at after
    exact ⟨congrArg StepView.attempts after, congrArg StepView.nextRetryAt after⟩

private theorem endedView_outcomePayload (result : AttemptResult) (step : StepView) :
    (endedView (outcomePayload result) step).status = .completed ∨
      (endedView (outcomePayload result) step).status = .failed := by
  unfold outcomePayload
  split
  · exact .inl rfl
  · exact .inr rfl

theorem returns_settleWave (renumbers : Renumbers sem) (config : Config)
    (nodup : (results.map AttemptResult.stepId).Nodup)
    (ready : ∀ result ∈ results, (inst.stepOr result.stepId).attempts = result.attempt ∧
      (inst.stepOr result.stepId).nextRetryAt = none) : Returns sem
      (fun next => (∀ stepId ∉ results.map AttemptResult.stepId,
          StepView.of (next.stepOr stepId) = .of (inst.stepOr stepId)) ∧
        (next.status = .waitingApproval ∨ next.status = inst.status ∧ ∀ result ∈ results,
          Attempted result.step result.attempt (.of (next.stepOr result.stepId))))
      (settleWave config definition inst results) := by
  refine (returns_drafts _).bind fun drafts payloads => ?_
  refine (returns_append renumbers drafts none).bind fun recorded folded => ?_
  rw [payloads] at folded
  refine .any_bind fun _ => .any_bind fun now => ?_
  refine (returns_drafts _).bind fun retryDrafts retryPayloads => ?_
  refine (returns_append renumbers retryDrafts none).bind fun retried refolded => ?_
  rw [retryPayloads] at refolded
  have others : ∀ stepId ∉ results.map AttemptResult.stepId,
      StepView.of (retried.stepOr stepId) = .of (inst.stepOr stepId) := by
    intro stepId notListed
    rw [refolded.step_of_ne, folded.step_of_ne]
    · exact fun payload listed same => notListed ((rewrites_of_mem_results listed).1 _ same)
    · intro payload listed same
      obtain ⟨result, member, _, runAt, rfl⟩ := rewrites_of_mem_retries listed
      exact notListed (Option.some.inj same ▸ List.mem_map_of_mem member)
  have status : retried.status = inst.status := by
    rw [refolded.status_of_still, folded.status_of_still]
    · exact fun payload listed => (rewrites_of_mem_results listed).2
    · intro payload listed
      obtain ⟨result, _, _, runAt, rfl⟩ := rewrites_of_mem_retries listed
      exact fun _ => rfl
  by_cases none : (reviewsOf results).isEmpty
  · dsimp only
    rw [if_pos none]
    refine returns_pure ⟨others, .inr ⟨status, fun result member => ?_⟩⟩
    have recordedStep := folded.step result.stepId
    rw [foldl_track_flatMap nodup (fun item listed payload mine stepId same => ?own) member,
      track_resultPayloads] at recordedStep
    case own =>
      have sole := (@rewrites_of_mem_results [item] payload (by simpa using mine)).1 _ same
      simpa using sole
    rw [refolded.step, recordedStep]
    obtain ⟨attempts, untimed⟩ := ready result member
    apply Attempted.of_retries nodup member
    · rw [attempts_endedView]
      exact attempts
    · exact endedView_outcomePayload result _
    · rw [nextRetryAt_endedView]
      exact untimed
  · dsimp only
    rw [if_neg none]
    refine (returns_raiseReviewEscalations renumbers _).imp ?_
    rintro next ⟨parked, kept⟩
    refine ⟨fun stepId notListed => ?_, .inl parked⟩
    rw [kept stepId fun listed => notListed ((reviewsOf_sublist results).subset listed)]
    exact others stepId notListed

theorem returns_dispatchWave (renumbers : Renumbers sem) (config : Config) (lease : Lease)
    (nodup : (dispatch.map Prod.fst).Nodup) : Returns sem (WaveEffect definition inst dispatch)
      (dispatchWave config definition lease inst dispatch) := by
  refine (returns_launch renumbers lease.workerId nodup).bind_bind fun launched wave => ?_
  refine .any_bind fun budget => ?_
  refine (returns_gather (fun candidate => returns_runOne config budget candidate)
    dispatch).bind fun results all => ?_
  have keys : results.map (fun result => (result.stepId, result.attempt)) = dispatch := by
    clear wave nodup
    induction all with
    | nil => rfl
    | cons mine _ ih => rw [List.map_cons, mine.1, ih]
  have stepIds : results.map AttemptResult.stepId = dispatch.map Prod.fst := by
    rw [← keys, List.map_map]
    rfl
  have candidateOf : ∀ result ∈ results, (result.stepId, result.attempt) ∈ dispatch := by
    intro result member
    rw [← keys]
    exact List.mem_map_of_mem (f := fun result : AttemptResult =>
      (result.stepId, result.attempt)) member
  refine (returns_settleWave renumbers config (stepIds ▸ nodup) fun result member =>
    wave.launched _ (candidateOf result member)).imp ?_
  rintro next ⟨others, outcome⟩
  constructor
  case others =>
    intro stepId notListed
    rw [others stepId (stepIds ▸ notListed), wave.others stepId notListed]
  case outcome =>
    refine outcome.imp_right ?_
    rintro ⟨status, attempted⟩
    refine ⟨status.trans wave.status, fun candidate member => ?_⟩
    rw [← keys] at member
    obtain ⟨result, listed, rfl⟩ := List.mem_map.mp member
    obtain ⟨_, _, _, stepMember, same⟩ := exists_of_forall₂ all listed
    exact ⟨result.step, stepMember, same, attempted result listed⟩

end Code

/-! ## The measure -/

/-- The attempts a step may still make, counting the one it always may. -/
def attemptsLeft (inst : WorkflowInstance) (step : WorkflowStep) : Nat :=
  if isDone (inst.stepOr step.stepId).status then 0
  else 1 + (step.retryPolicy.maxRetries - (inst.stepOr step.stepId).attempts)

/-- The attempts all steps of the definition may still make. -/
def remainingAttempts (definition : WorkflowDefinition) (inst : WorkflowInstance) : Nat :=
  (definition.steps.map (attemptsLeft inst)).sum

/-- How many iterations the loop may still make. -/
def turnsLeft (definition : WorkflowDefinition) (inst : WorkflowInstance) : Nat :=
  match inst.status with
  | .pending | .retrying => remainingAttempts definition inst + 2
  | .running =>
      if firstFailure inst definition.steps ≠ none then 1
      else remainingAttempts definition inst + 1
  | _ => 1

section Measure

variable {definition : WorkflowDefinition} {inst next : WorkflowInstance} {step : WorkflowStep}
  {reason : Option String} {now : Time}

theorem one_le_turnsLeft (definition : WorkflowDefinition) (inst : WorkflowInstance) :
    1 ≤ turnsLeft definition inst := by
  unfold turnsLeft
  repeat' split
  all_goals omega

theorem turnsLeft_le (definition : WorkflowDefinition) (inst : WorkflowInstance) :
    turnsLeft definition inst ≤ remainingAttempts definition inst + 2 := by
  unfold turnsLeft
  repeat' split
  all_goals omega

theorem attemptsLeft_of_view
    (same : StepView.of (next.stepOr step.stepId) = .of (inst.stepOr step.stepId)) :
    attemptsLeft next step = attemptsLeft inst step := by
  have status : (next.stepOr step.stepId).status = (inst.stepOr step.stepId).status :=
    congrArg StepView.status same
  have attempts : (next.stepOr step.stepId).attempts = (inst.stepOr step.stepId).attempts :=
    congrArg StepView.attempts same
  unfold attemptsLeft
  rw [status, attempts]

/-- A step that has not failed for good has fewer attempts left after one. -/
theorem Attempted.attemptsLeft_lt
    (attempted : Attempted step ((inst.stepOr step.stepId).attempts + 1)
      (.of (next.stepOr step.stepId)))
    (unfinished : isDone (inst.stepOr step.stepId).status = false)
    (hopeful : ¬ FailedForGood next step.stepId) :
    attemptsLeft next step < attemptsLeft inst step := by
  obtain ⟨attempts, ended⟩ := attempted
  have counted : (next.stepOr step.stepId).attempts = (inst.stepOr step.stepId).attempts + 1 :=
    attempts
  unfold attemptsLeft
  rw [unfinished, counted]
  rcases ended with completed | ⟨failed, untimed | retried⟩
  · have status : (next.stepOr step.stepId).status = .completed := completed
    rw [status]
    simp [isDone]
  · exact absurd ⟨failed, untimed⟩ hopeful
  · have status : (next.stepOr step.stepId).status = .failed := failed
    rw [status]
    simp only [isDone, Bool.false_eq_true, if_false]
    omega

theorem firstFailure_eq_none_iff {steps : List WorkflowStep} :
    firstFailure inst steps = none ↔ ∀ step ∈ steps, ¬ FailedForGood inst step.stepId := by
  unfold firstFailure FailedForGood
  simp [List.find?_eq_none]

theorem Candidate.unfinished {attempt : Nat}
    (candidate : Candidate inst definition now step attempt) :
    isDone (inst.stepOr step.stepId).status = false := by
  rcases candidate.runnable with ⟨pending | ready, _⟩ | ⟨failed, _⟩
  · rw [pending]
    rfl
  · rw [ready]
    rfl
  · rw [failed]
    rfl

theorem remainingAttempts_pos (member : step ∈ definition.steps)
    (unfinished : isDone (inst.stepOr step.stepId).status = false) :
    0 < remainingAttempts definition inst := by
  have left : 0 < attemptsLeft inst step := by
    simp [attemptsLeft, unfinished]
  exact left.trans_le (List.le_sum_of_mem (List.mem_map_of_mem member))

/-- If no step has failed for good, the steps of a wave have fewer attempts left
and the others as many as before. -/
theorem WaveEffect.remainingAttempts_lt {dispatch : List (String × Nat)}
    (others : ∀ stepId ∉ dispatch.map Prod.fst,
      StepView.of (next.stepOr stepId) = .of (inst.stepOr stepId))
    (attempted : ∀ candidate ∈ dispatch, ∃ step ∈ definition.steps, step.stepId = candidate.1 ∧
      Attempted step candidate.2 (.of (next.stepOr candidate.1)))
    (candidates : ∀ candidate ∈ dispatch, IsCandidate inst definition now candidate)
    (nonempty : dispatch ≠ [])
    (hopeful : ∀ step ∈ definition.steps, ¬ FailedForGood next step.stepId) :
    remainingAttempts definition next < remainingAttempts definition inst := by
  have ofWave : ∀ step ∈ definition.steps, step.stepId ∈ dispatch.map Prod.fst →
      attemptsLeft next step < attemptsLeft inst step := by
    intro step member listed
    obtain ⟨candidate, inDispatch, same⟩ := List.mem_map.mp listed
    obtain ⟨other, otherSame, candidateOk⟩ := candidates candidate inDispatch
    obtain rfl := definition.eq_of_stepId_eq candidateOk.member member (otherSame.trans same)
    obtain ⟨attemptedStep, attemptedMember, attemptedSame, ended⟩ := attempted candidate inDispatch
    obtain rfl := definition.eq_of_stepId_eq attemptedMember member (attemptedSame.trans same)
    rw [candidateOk.attempt, same] at ended
    exact ended.attemptsLeft_lt (Candidate.unfinished candidateOk) (hopeful _ member)
  apply List.sum_lt_sum
  · intro step member
    by_cases listed : step.stepId ∈ dispatch.map Prod.fst
    · exact (ofWave step member listed).le
    · exact (attemptsLeft_of_view (others step.stepId listed)).le
  · obtain ⟨candidate, inDispatch⟩ := List.exists_mem_of_ne_nil _ nonempty
    obtain ⟨step, same, candidateOk⟩ := candidates candidate inDispatch
    exact ⟨step, candidateOk.member, ofWave step candidateOk.member
      (same ▸ List.mem_map_of_mem inDispatch)⟩

/-- A wave brings the loop closer to its end. -/
theorem WaveEffect.turnsLeft_lt {plan : Plan}
    (effect : WaveEffect definition inst plan.dispatch next)
    (planned : Engine.plan inst definition now = .ok plan) (runs : inst.status = .running)
    (nonempty : plan.dispatch ≠ []) (unfailed : plan.terminalFailure = none) :
    turnsLeft definition next < turnsLeft definition inst := by
  have sound := soundPlan planned
  have failure : firstFailure inst definition.steps = none := by
    rw [← (terminalFailure_of_plan planned).1, unfailed]
  have before : turnsLeft definition inst = remainingAttempts definition inst + 1 := by
    simp [turnsLeft, runs, failure]
  have candidates := fun candidate listed => (sound.dispatch candidate listed).1
  have left : 0 < remainingAttempts definition inst := by
    obtain ⟨candidate, listed⟩ := List.exists_mem_of_ne_nil _ nonempty
    obtain ⟨step, _, candidateOk⟩ := candidates candidate listed
    exact remainingAttempts_pos candidateOk.member (Candidate.unfinished candidateOk)
  rw [before]
  rcases effect.outcome with parked | ⟨status, attempted⟩
  · simp [turnsLeft, parked, left]
  · by_cases failed : firstFailure next definition.steps = none
    · have fewer := WaveEffect.remainingAttempts_lt effect.others attempted candidates nonempty
        (firstFailure_eq_none_iff.mp failed)
      simp [turnsLeft, status.trans runs, failed, fewer]
    · simp [turnsLeft, status.trans runs, failed, left]

/-- Waking the instance uses up one iteration. -/
theorem turnsLeft_lt_of_woken {source : WorkflowStatus}
    (asleep : inst.status = .pending ∨ inst.status = .retrying)
    (woken : Folded [.instanceStatusChanged source .running reason] inst next) :
    turnsLeft definition next < turnsLeft definition inst := by
  have before : turnsLeft definition inst = remainingAttempts definition inst + 2 := by
    rcases asleep with status | status <;> simp [turnsLeft, status]
  have status : next.status = .running := woken.status
  have same : remainingAttempts definition next = remainingAttempts definition inst := by
    unfold remainingAttempts
    congr 1
    apply List.map_congr_left
    intro step _
    apply attemptsLeft_of_view
    exact woken.step_of_ne (by simp [rewrites])
  rw [before, turnsLeft, status, same]
  dsimp only
  split <;> omega

private theorem recovered_step {state : State} {events : List Event}
    (recovers : ∀ event ∈ events, ∃ recovered,
      event.payload = .stepStatusChanged recovered .running .ready reason)
    (accepts : state.AcceptsAll events) (stepId : String) :
    isDone ((state.afterAll events).steps stepId).status = isDone (state.steps stepId).status ∧
      ((state.afterAll events).steps stepId).attempts = (state.steps stepId).attempts := by
  induction events generalizing state with
  | nil => exact ⟨rfl, rfl⟩
  | cons event rest ih =>
    obtain ⟨recovered, payload⟩ := recovers event List.mem_cons_self
    obtain ⟨accepted, acceptsRest⟩ := accepts
    have kept := ih (fun other member => recovers other (List.mem_cons_of_mem _ member))
      acceptsRest
    change isDone (((state.after event).afterAll rest).steps stepId).status = _ ∧
      (((state.after event).afterAll rest).steps stepId).attempts = _
    rw [kept.1, kept.2]
    change isDone ((state.advance event.payload).steps stepId).status = _ ∧
      ((state.advance event.payload).steps stepId).attempts = _
    rw [payload] at accepted ⊢
    by_cases same : stepId = recovered
    · subst same
      have running : (state.steps stepId).status = .running := accepted.1.symm
      simp [State.advance, State.modifyStep, running, isDone]
    · simp [State.advance, State.modifyStep, same]

/-- Recovering steps costs no attempts. -/
theorem remainingAttempts_of_recovered {stepIds : List String}
    (recovered : Folded (stepIds.map fun stepId =>
      .stepStatusChanged stepId .running .ready reason) inst next) :
    remainingAttempts definition next = remainingAttempts definition inst := by
  obtain ⟨events, payloads, accepts, after⟩ := recovered
  have recovers : ∀ event ∈ events, ∃ stepId,
      event.payload = .stepStatusChanged stepId .running .ready reason := by
    intro event member
    have listed := List.mem_map_of_mem (f := Event.payload) member
    rw [payloads] at listed
    obtain ⟨stepId, _, same⟩ := List.mem_map.mp listed
    exact ⟨stepId, same.symm⟩
  unfold remainingAttempts
  congr 1
  apply List.map_congr_left
  intro step _
  obtain ⟨done, attempts⟩ := recovered_step recovers accepts step.stepId
  rw [← after] at done attempts
  change isDone (next.stepOr step.stepId).status = isDone (inst.stepOr step.stepId).status at done
  change (next.stepOr step.stepId).attempts = (inst.stepOr step.stepId).attempts at attempts
  unfold attemptsLeft
  rw [done, attempts]

end Measure

/-! ## The loop -/

section Loop

variable {Env : Type} {sem : Semantics Env Op Op.Result} {definition : WorkflowDefinition}
  {config : Config} {lease : Lease} {inst : WorkflowInstance} {env final : Env}

theorem returns_recoverInFlight (renumbers : Renumbers sem) :
    Returns sem (fun next => remainingAttempts definition next = remainingAttempts definition inst)
      (recoverInFlight definition inst) := by
  unfold recoverInFlight
  dsimp only
  rw [← Program.traverse_map (draftEvent inst)]
  refine (returns_drafts _).bind fun drafts payloads => ?_
  refine (returns_append renumbers drafts none).imp fun next folded => ?_
  rw [payloads] at folded
  exact remainingAttempts_of_recovered folded

theorem returns_transition (renumbers : Renumbers sem) (source target : WorkflowStatus)
    (reason : Option String) (wakeup : Option Time) :
    Returns sem (Folded [.instanceStatusChanged source target reason] inst)
      (transition definition inst source target reason wakeup) := by
  refine (returns_draftEvent _).bind fun draft same => ?_
  refine (returns_append renumbers [draft] wakeup).imp fun next folded => ?_
  rwa [List.map_singleton, same] at folded

/-- The turn ends the loop or leaves fewer iterations. -/
def Advances (definition : WorkflowDefinition) (inst : WorkflowInstance) : Turn → Prop
  | .report _ => True
  | .again next => turnsLeft definition next < turnsLeft definition inst

theorem returns_report (code : Code DriveReport) :
    Returns sem (Advances definition inst) (Turn.report <$> code) :=
  (returns_any code).bind fun _ _ => returns_pure trivial

theorem returns_followPlan (renumbers : Renumbers sem) {plan : Plan} {now : Time}
    (planned : Engine.plan inst definition now = .ok plan) (runs : inst.status = .running) :
    Returns sem (Advances definition inst) (followPlan config definition lease inst plan) := by
  have course := course_followPlan config definition lease inst plan
  generalize followPlan config definition lease inst plan = code at course ⊢
  cases course with
  | blocked | approvals | failed | completed => exact returns_report _
  | waved clear busy =>
    refine (returns_dispatchWave renumbers config lease (soundPlan planned).distinct).bind
      fun next effect => returns_pure ?_
    exact effect.turnsLeft_lt planned runs busy clear.fine
  | parked => exact .any_bind fun _ => returns_pure trivial
  | idle => exact returns_pure trivial

/-- An iteration that is followed by another leaves fewer of them. -/
theorem returns_runTurn (renumbers : Renumbers sem) :
    Returns sem (Advances definition inst) (runTurn config definition lease inst) := by
  unfold runTurn
  cases status : inst.status with
  | completed | rolledBack | paused | deadLettered | waitingApproval | failed =>
    exact returns_pure trivial
  | pending =>
    refine (returns_transition renumbers _ _ _ _).bind fun next woken => returns_pure ?_
    exact turnsLeft_lt_of_woken (.inl status) woken
  | retrying =>
    refine (returns_transition renumbers _ _ _ _).bind fun next woken => returns_pure ?_
    exact turnsLeft_lt_of_woken (.inr status) woken
  | running =>
    refine .any_bind fun now => returns_lift_bind fun plan planned => ?_
    exact returns_followPlan renumbers planned status

/-- Iterations that were each followed by another one. -/
inductive Iterated (sem : Semantics Env Op Op.Result) (config : Config)
    (definition : WorkflowDefinition) (lease : Lease) :
    Nat → WorkflowInstance → Env → WorkflowInstance → Env → Prop
  | refl (inst : WorkflowInstance) (env : Env) :
      Iterated sem config definition lease 0 inst env inst env
  | again {count : Nat} {inst next later : WorkflowInstance} {env middle final : Env} :
      Program.Steps sem env (runTurn config definition lease inst) middle (.done (.again next)) →
      Iterated sem config definition lease count next middle later final →
      Iterated sem config definition lease (count + 1) inst env later final

theorem Iterated.turnsLeft_le (renumbers : Renumbers sem) {count : Nat} {later : WorkflowInstance}
    (iterated : Iterated sem config definition lease count inst env later final) :
    turnsLeft definition later + count ≤ turnsLeft definition inst := by
  induction iterated with
  | refl => exact le_rfl
  | again turn _ ih =>
    have fewer := (returns_runTurn renumbers _).steps turn
    change turnsLeft definition _ < turnsLeft definition _ at fewer
    omega

/-- A run of the loop that raises does so in one of its iterations, or has used
them all up. -/
theorem raise_of_runLoop {fuel : Nat} {failure : Exn}
    (run : Program.Steps sem env (runLoop config definition lease fuel inst) final
      (.raise failure)) : (∃ count later before, count < fuel ∧
        Iterated sem config definition lease count inst env later before ∧
        Program.Steps sem before (runTurn config definition lease later) final (.raise failure)) ∨
      ∃ later, Iterated sem config definition lease fuel inst env later final := by
  induction fuel generalizing inst env with
  | zero =>
    cases run
    exact .inr ⟨inst, .refl inst _⟩
  | succ fuel ih =>
    rcases Program.raise_of_bind run with early | ⟨turn, middle, turned, rest⟩
    · exact .inl ⟨0, inst, env, Nat.succ_pos _, .refl inst env, early⟩
    · cases turn with
      | report report => cases rest
      | again next =>
        rcases ih rest with ⟨count, later, before, bound, iterated, raised⟩ | ⟨later, iterated⟩
        · exact .inl ⟨count + 1, later, before, Nat.succ_lt_succ bound,
            .again turned iterated, raised⟩
        · exact .inr ⟨later, .again turned iterated⟩

end Loop

end AgentForge.Refinement
