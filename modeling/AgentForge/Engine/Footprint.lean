import AgentForge.Engine.Driver
import AgentForge.Library.History

/-!
# Footprints

Which operations the pieces of the driver perform and what they draft, whatever
their surroundings answer.  An attempt asks its surroundings for model calls,
side effects and the time; drafting events takes identifiers and the time.
-/

namespace AgentForge.Engine

open Domain Events Library
open Program

/-! ## Drafting -/

/-- Drafting takes identifiers and the time. -/
def Op.drafts : Op → Prop
  | .newId => True
  | .now => True
  | _ => False

/-- The events carry the payloads and belong to the instance. -/
def DraftsOf (inst : WorkflowInstance) (payloads : List Payload) (events : List Event) : Prop :=
  events.map Event.payload = payloads ∧ ∀ event ∈ events, event.owner = inst.owner

theorem DraftsOf.nil (inst : WorkflowInstance) : DraftsOf inst [] [] :=
  ⟨rfl, List.forall_mem_nil _⟩

variable {inst : WorkflowInstance} {good : Payload → Prop} {allowed : Op → Prop}

theorem DraftsOf.append {first second : List Payload} {events others : List Event}
    (drafted : DraftsOf inst first events) (more : DraftsOf inst second others) :
    DraftsOf inst (first ++ second) (events ++ others) := by
  refine ⟨by rw [List.map_append, drafted.1, more.1], ?_⟩
  intro event member
  rcases List.mem_append.mp member with old | new
  · exact drafted.2 event old
  · exact more.2 event new

/-- What holds of the payloads holds of the events. -/
theorem DraftsOf.forall_mem {payloads : List Payload} {events : List Event}
    (drafted : DraftsOf inst payloads events) (all : ∀ payload ∈ payloads, good payload) :
    ∀ event ∈ events, good event.payload := by
  intro event member
  exact all _ (drafted.1 ▸ List.mem_map_of_mem member)

theorem safe_lift_bind {α β World : Type} {sem : Semantics World Op Op.Result}
    {pre : World → Op → Prop} {post : β → World → Prop} {error : Exn → World → Prop}
    {result : Except Exn α} {rest : α → Code β} {world : World}
    (succeeds : ∀ value, result = .ok value → Safe sem pre post error (rest value) world)
    (fails : ∀ failure, result = .error failure → error failure world) :
    Safe sem pre post error (lift result >>= rest) world := by
  cases result with
  | ok value => exact succeeds value rfl
  | error failure => exact fails failure rfl

theorem yields_lift_bind {α β : Type} {returns : β → Prop} {result : Except Exn α}
    {rest : α → Code β}
    (succeeds : ∀ value, result = .ok value → Yields allowed returns (rest value)) :
    Yields allowed returns (lift result >>= rest) :=
  safe_lift_bind succeeds fun _ _ => trivial

theorem yields_draftEvent (inst : WorkflowInstance) (payload : Payload) :
    Yields Op.drafts (fun event => DraftsOf inst [payload] [event]) (draftEvent inst payload) := by
  refine ⟨trivial, fun eventId _ _ => ⟨trivial, fun occurredAt _ _ => ⟨rfl, ?_⟩⟩⟩
  intro event member
  rw [List.mem_singleton] at member
  rw [member]
  rfl

/-- Drafting, where it is allowed. -/
theorem yields_drafting {α : Type} {returns : α → Prop} {code : Code α} (newId : allowed .newId)
    (now : allowed .now) (yields : Yields Op.drafts returns code) :
    Yields allowed returns code := by
  refine yields.mono (fun op drafts => ?_) fun _ holds => holds
  cases op with
  | newId => exact newId
  | now => exact now
  | _ => exact drafts.elim

theorem yields_drafts (inst : WorkflowInstance) (payloads : List Payload) :
    Yields Op.drafts (DraftsOf inst payloads) (Program.traverse (draftEvent inst) payloads) := by
  apply safe_traverse fun done events _ => DraftsOf inst done events
  · exact .nil inst
  · intro before payload after _ collected _ drafted
    exact (yields_draftEvent inst payload).imp fun event _ more => drafted.append more

/-- Drafting in groups: each group has payloads of some kind. -/
theorem yields_groups {α : Type} {body : α → Code (List Event)} (elements : List α)
    (each : ∀ element, Yields Op.drafts
      (fun events => ∃ payloads, DraftsOf inst payloads events ∧ ∀ payload ∈ payloads, good payload)
      (body element)) : Yields Op.drafts
      (fun groups => ∃ payloads, DraftsOf inst payloads groups.flatten ∧
        ∀ payload ∈ payloads, good payload) (Program.traverse body elements) := by
  apply safe_traverse fun _ groups _ => ∃ payloads, DraftsOf inst payloads (List.flatten groups) ∧
    ∀ payload ∈ payloads, good payload
  · exact ⟨[], .nil inst, List.forall_mem_nil _⟩
  · rintro before element after _ groups _ ⟨payloads, drafted, all⟩
    refine (each element).imp ?_
    rintro events _ ⟨others, more, allOthers⟩
    refine ⟨payloads ++ others, ?_, ?_⟩
    · rw [List.flatten_append, List.flatten_singleton]
      exact drafted.append more
    · intro payload member
      exact (List.mem_append.mp member).elim (all payload) (allOthers payload)

/-- Events that make a step runnable or start it. -/
def launches : Payload → Prop
  | .stepStatusChanged _ .pending .ready _ => True
  | .stepStarted .. => True
  | _ => False

theorem yields_readyEvents (inst : WorkflowInstance) (stepId : String) : Yields Op.drafts
      (fun events => ∃ payloads, DraftsOf inst payloads events ∧
        ∀ payload ∈ payloads, launches payload) (readyEvents inst stepId) := by
  refine yields_lift_bind fun state _ => ?_
  by_cases pending : state.status = .pending
  · rw [if_pos pending]
    refine Safe.bind (yields_draftEvent inst _) ?_
    intro event _ drafted
    refine ⟨_, drafted, ?_⟩
    intro payload member
    rw [List.mem_singleton] at member
    rw [member]
    trivial
  · rw [if_neg pending]
    exact ⟨[], .nil inst, List.forall_mem_nil _⟩

theorem yields_startEvents (inst : WorkflowInstance) (workerId : String)
    (candidate : String × Nat) : Yields Op.drafts
      (fun events => ∃ payloads, DraftsOf inst payloads events ∧
        ∀ payload ∈ payloads, launches payload) (startEvents inst workerId candidate) := by
  refine Safe.bind (yields_readyEvents inst candidate.1) ?_
  rintro readied _ ⟨payloads, drafted, all⟩
  refine Safe.bind (yields_draftEvent inst _) ?_
  intro started _ more
  exact ⟨_, drafted.append more, forall_mem_concat all trivial⟩

/-! ## Attempts -/

/-- What an attempt asks for: the budget that model calls are checked against is
the one of its context. -/
def Op.attempts (ctx : StepContext) : Op → Prop
  | .now => True
  | .deadlinePassed _ => True
  | .external _ => True
  | .completeLLM call _ budget => call.stepId = ctx.stepId ∧ budget = ctx.budget ∧
      ctx.hasLlmClient = true
  | .executeEffect stepId _ _ _ => stepId = ctx.stepId ∧ ctx.hasGuard = true
  | _ => False

/-- Performing an action through the guard. -/
def RunnerOp.acts : RunnerOp → Prop
  | .executeEffect .. => True
  | _ => False

def Op.acts : Op → Prop
  | .executeEffect .. => True
  | _ => False

section Attempts

variable {config : Config} {ctx : StepContext}

private theorem yields_llm (request : LLMRequest) (state : ContextState) :
    Yields (fun op => op.attempts ctx ∧ ¬ op.acts) (fun _ => True)
      (ctx.llm config request state) := by
  unfold StepContext.llm
  dsimp only
  cases ctx.replayLlm[state.llmIndex]? with
  | some recording => trivial
  | none =>
    cases wired : ctx.hasLlmClient with
    | false => trivial
    | true =>
      refine ⟨⟨⟨rfl, rfl, wired⟩, id⟩, ?_⟩
      rintro (failure | completion) _ _
      · trivial
      · trivial

private theorem yields_executeEffect (effectName : String) (params : JsonDict) (provider : String)
    (state : ContextState) : Yields (Op.attempts ctx) (fun _ => True)
      (ctx.executeEffect effectName params provider state) := by
  unfold StepContext.executeEffect
  cases wired : ctx.hasGuard with
  | false => trivial
  | true =>
    refine ⟨⟨rfl, wired⟩, ?_⟩
    rintro (failure | outcome) _ _
    · trivial
    · trivial

/-- If the runner acts only under a condition, so does its attempt. -/
theorem yields_interpret {acting : Prop} (timeoutSeconds : Nat) {runner : RunnerCode}
    (mayAct : Yields (fun op => op.acts → acting) (fun _ => True) runner) (state : ContextState) :
    Yields (fun op => op.attempts ctx ∧ (op.acts → acting)) (fun _ => True)
      (interpret config ctx timeoutSeconds runner state) := by
  have asking {op : Op} (asks : op.attempts ctx) (silent : ¬ op.acts) :
      Yields (fun op => op.attempts ctx ∧ (op.acts → acting)) (fun _ => True)
        (call op : Code op.Result) :=
    yields_call ⟨asks, fun acts => absurd acts silent⟩
  induction runner generalizing state with
  | done result => trivial
  | raise failure => trivial
  | perform op rest ih =>
    have later (response : op.Result) (state : ContextState) :=
      ih response (mayAct.2 response PUnit.unit trivial) state
    cases op with
    | llm request =>
      refine Safe.bind (asking trivial id) ?_
      rintro (_ | _) _ _
      · refine Safe.bind (Yields.mono (yields_llm request state) ?_ fun _ holds => holds)
          fun _ _ _ => later _ _
        rintro op ⟨asks, silent⟩
        exact ⟨asks, fun acts => absurd acts silent⟩
      · trivial
    | charge entry => exact later () _
    | executeEffect effectName params provider =>
      have acts : acting := mayAct.1 trivial
      refine Safe.bind (asking trivial id) ?_
      rintro (_ | _) _ _
      · exact Safe.bind (Yields.mono (yields_executeEffect effectName params provider state)
          (fun _ asks => ⟨asks, fun _ => acts⟩) fun _ holds => holds) fun _ _ _ => later _ _
      · trivial
    | requestReview review => exact later () _
    | now => exact Safe.bind (asking trivial id) fun time _ _ => later time state
    | external query =>
      refine Safe.bind (asking trivial id) ?_
      rintro (_ | _) _ _
      · exact Safe.bind (asking trivial id)
          fun response _ _ => later response state
      · trivial

theorem yields_runAttempt {acting : Prop} (timeoutSeconds : Nat)
    (mayAct : ∀ runner, config.registry ctx.agentType = some runner →
      Yields (fun op => op.acts → acting) (fun _ => True) (runner ctx)) :
    Yields (fun op => op.attempts ctx ∧ (op.acts → acting)) (fun _ => True)
      (runAttempt config ctx timeoutSeconds) := by
  unfold runAttempt
  cases registered : config.registry ctx.agentType with
  | none => trivial
  | some runner =>
    refine Safe.bind (yields_interpret timeoutSeconds (mayAct runner registered) {}) ?_
    rintro ⟨ended, state⟩ _ _
    unfold outcomeOf
    cases ended with
    | timedOut => trivial
    | returned result => trivial
    | raised failure =>
      dsimp only
      cases failure.exnClass <;> trivial

end Attempts

/-- What the attempts of a wave ask for. -/
def Op.inWave (config : Config) (budget : Option BudgetView) : Op → Prop
  | .now => True
  | .deadlinePassed _ => True
  | .external _ => True
  | .completeLLM _ _ checked => checked = budget
  | .executeEffect .. => config.hasSideEffects = true
  | .mark _ => True
  | _ => False

theorem yields_runOne (config : Config) (definition : WorkflowDefinition) (inst : WorkflowInstance)
    (budget : Option BudgetView) (candidate : String × Nat) :
    Yields (Op.inWave config budget) (fun result => result.stepId = candidate.1)
      (runOne config definition inst budget candidate) := by
  refine yields_lift_bind fun step _ => ?_
  refine yields_lift_bind fun state _ => ?_
  refine Safe.bind (yields_call trivial) fun _ _ _ => ?_
  refine Safe.bind (Yields.mono (yields_runAttempt step.timeoutSeconds
    fun _ _ => yields_of_forall (fun _ _ => trivial) _) ?_ fun _ holds => holds) ?_
  · rintro op ⟨allowed, _⟩
    cases op with
    | completeLLM => exact allowed.2.1
    | executeEffect => exact allowed.2
    | now | deadlinePassed | external | mark => trivial
    | _ => exact allowed
  · intro outcome _ _
    refine Safe.bind (yields_call trivial) fun _ _ _ => ?_
    exact Safe.bind (yields_call trivial) fun _ _ _ => rfl

theorem yields_gather (config : Config) (definition : WorkflowDefinition) (inst : WorkflowInstance)
    (budget : Option BudgetView) (dispatch : List (String × Nat)) :
    Yields (Op.inWave config budget) (fun _ => True)
      (gather (runOne config definition inst budget) dispatch) := by
  apply safe_gather fun _ _ _ => True
  · trivial
  · intro before candidate after _ outcomes _ _
    exact Safe.imp (yields_runOne config definition inst budget candidate) fun _ _ _ => trivial
  · exact fun _ _ _ _ _ => trivial

/-- What the settling of a wave asks for. -/
def Op.settles : Op → Prop
  | .newId => True
  | .now => True
  | .appendNew .. => True
  | .recordSpend .. => True
  | _ => False

/-- The one operation of an append. -/
theorem yields_append {definition : WorkflowDefinition} {drafts : List Event}
    {nextWakeupAt : Option Time} (may : drafts ≠ [] → allowed
      (.appendNew inst.instanceId inst.tenantId drafts inst.version true nextWakeupAt)) :
    Yields allowed (fun _ => True) (append definition inst drafts nextWakeupAt) := by
  unfold append
  by_cases empty : drafts.isEmpty = true
  · rw [if_pos empty]
    trivial
  · rw [if_neg empty]
    refine Safe.bind (yields_call (may (by simpa using empty))) fun response _ _ => ?_
    refine yields_lift_bind fun appended _ => ?_
    dsimp only
    cases foldOnto definition inst appended.2 <;> trivial

theorem yields_recordWaveSpend {config : Config} {results : List AttemptResult}
    (now : allowed .now)
    (spend : ∀ amountUsd time, allowed (.recordSpend inst.tenantId amountUsd time)) :
    Yields allowed (fun _ => True) (recordWaveSpend config inst results) := by
  unfold recordWaveSpend
  cases config.budget with
  | none => trivial
  | some limit =>
    dsimp only
    split
    · exact Safe.bind (yields_call now) fun time _ _ => yields_call (spend _ time)
    · trivial

private theorem yields_raiseReviewEscalations (definition : WorkflowDefinition)
    (inst : WorkflowInstance) (reviews : List (String × ReviewRequest)) :
    Yields Op.settles (fun _ => True) (raiseReviewEscalations definition inst reviews) := by
  refine Safe.bind (yields_call trivial) fun now _ _ => ?_
  refine Safe.bind (safe_traverse (fun _ _ _ => True) trivial fun _ review _ _ _ _ _ => ?_)
    fun raised _ _ => ?_
  · refine Safe.bind (yields_call trivial) fun escalationId _ _ => ?_
    exact Safe.imp (yields_drafting trivial trivial (yields_draftEvent inst _)) fun _ _ _ => trivial
  · refine Safe.bind (yields_drafting trivial trivial (yields_draftEvent inst _))
      fun parked _ _ => ?_
    exact yields_append fun _ => trivial

theorem yields_settleWave (config : Config) (definition : WorkflowDefinition)
    (inst : WorkflowInstance) (results : List AttemptResult) :
    Yields Op.settles (fun _ => True) (settleWave config definition inst results) := by
  have drafting (inst : WorkflowInstance) (payloads : List Payload) :
      Yields Op.settles (DraftsOf inst payloads) (Program.traverse (draftEvent inst) payloads) :=
    yields_drafting trivial trivial (yields_drafts inst payloads)
  refine Safe.bind (drafting inst _) fun drafts _ _ => ?_
  refine Safe.bind (yields_append fun _ => trivial) fun inst _ _ => ?_
  refine Safe.bind (yields_recordWaveSpend trivial fun _ _ => trivial) fun _ _ _ => ?_
  refine Safe.bind (yields_call trivial) fun now _ _ => ?_
  refine Safe.bind (drafting inst _) fun retries _ _ => ?_
  refine Safe.bind (yields_append fun _ => trivial) fun inst _ _ => ?_
  dsimp only
  split
  · trivial
  · exact yields_raiseReviewEscalations definition inst _

/-! ## Plans -/

section Plans

variable (config : Config) (definition : WorkflowDefinition) (lease : Lease)
  (inst : WorkflowInstance) (plan : Plan)

/-- Nothing holds the plan up. -/
structure Plan.Clear : Prop where
  affordable : plan.budgetBlockedStep = none
  approved : plan.approvalNeeded = []
  fine : plan.terminalFailure = none

/-- What following a plan comes to, and which parts of the plan decide it. -/
inductive Course : Code Turn → Prop
  | blocked (stepId : String) : plan.budgetBlockedStep = some stepId →
      Course (.report <$> blockOnBudget definition inst stepId)
  | approvals : plan.budgetBlockedStep = none → plan.approvalNeeded ≠ [] →
      Course (.report <$> escalateForApproval definition inst plan.approvalNeeded)
  | failed (failure : String × String) : plan.budgetBlockedStep = none →
      plan.approvalNeeded = [] → plan.terminalFailure = some failure →
      Course (.report <$> applyFailurePolicy config definition inst failure)
  | waved : plan.Clear → plan.dispatch ≠ [] →
      Course (.again <$> dispatchWave config definition lease inst plan.dispatch)
  | completed : plan.Clear → plan.dispatch = [] → plan.allSettled = true →
      Course (.report <$> complete definition inst)
  | parked (retryAt : Time) : plan.Clear → plan.dispatch = [] → plan.allSettled = false →
      plan.retryWakeup = some retryAt →
      Course (transition definition inst .running .retrying none (some retryAt) >>= fun inst =>
        pure (.report { instanceId := inst.instanceId, result := .parked,
                        nextWakeupAt := some retryAt }))
  | idle : plan.Clear → plan.dispatch = [] → plan.allSettled = false → plan.retryWakeup = none →
      Course (pure (.report { instanceId := inst.instanceId, result := .idle }))

theorem course_followPlan : Course config definition lease inst plan
    (followPlan config definition lease inst plan) := by
  unfold followPlan
  cases blocked : plan.budgetBlockedStep with
  | some stepId => exact .blocked stepId blocked
  | none =>
    by_cases approvals : plan.approvalNeeded = []
    · cases failure : plan.terminalFailure with
      | some failed =>
        simp only [approvals, List.isEmpty_nil, Bool.not_true, Bool.false_eq_true, if_false]
        exact .failed failed blocked approvals failure
      | none =>
        have clear : plan.Clear := ⟨blocked, approvals, failure⟩
        simp only [approvals, List.isEmpty_nil, Bool.not_true, Bool.false_eq_true, if_false]
        by_cases nothing : plan.dispatch = []
        · simp only [nothing, List.isEmpty_nil, Bool.not_true, Bool.false_eq_true, if_false]
          cases settled : plan.allSettled with
          | true => exact .completed clear nothing settled
          | false =>
            cases wakeup : plan.retryWakeup with
            | some retryAt => exact .parked retryAt clear nothing settled wakeup
            | none => exact .idle clear nothing settled wakeup
        · rw [if_pos (by simpa using nothing)]
          exact .waved clear nothing
    · dsimp only
      rw [if_pos (by simpa using approvals)]
      exact .approvals blocked approvals

end Plans

end AgentForge.Engine
