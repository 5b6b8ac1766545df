import AgentForge.Protocol.Legal

/-!
# Invariants of legal runs

What legal events keep true of the state: escalations hold their steps, outputs
and completions go together, a started step has its dependencies settled and
its approval.  Each invariant is kept by every legal event; together they hold
along every run.
-/

namespace AgentForge.Protocol

open Domain Events

variable {stepId other : String} {log : List Event} {rules : Rules} {escalation : Escalation}
  {step : WorkflowStep} {state : State} {events : List Event} {payload : Payload}

/-! ## The log after an event -/

section After

variable {state : State} {event : Event} {payload : Payload}

theorem started_after (stepId : String) : (state.after event).Started stepId ↔
      state.Started stepId ∨ starts event.payload stepId := by
  simp [State.Started, State.after, or_and_right, exists_or]

theorem approved_after (stepId : String) : (state.after event).Approved stepId ↔
      state.Approved stepId ∨ approves event.payload stepId := by
  simp [State.Approved, State.after, or_and_right, exists_or]

theorem completions_after (stepId : String) : (state.after event).completions stepId =
      state.completions stepId + if completes event.payload stepId then 1 else 0 := by
  simp [State.completions, State.after, List.countP_append, List.countP_cons]

theorem State.Started.after (started : state.Started stepId) : (state.after event).Started stepId :=
  (started_after stepId).mpr (.inl started)

theorem State.Approved.after (approved : state.Approved stepId) :
    (state.after event).Approved stepId :=
  (approved_after stepId).mpr (.inl approved)

theorem started_afterAll_iff {batch : List Event}
    (plain : ∀ event ∈ batch, ∀ other, ¬ starts event.payload other) :
    (state.afterAll batch).Started stepId ↔ state.Started stepId := by
  unfold State.Started
  rw [State.log_afterAll]
  constructor
  · rintro ⟨event, member, starts⟩
    rcases List.mem_append.mp member with old | new
    · exact ⟨event, old, starts⟩
    · exact absurd starts (plain event new stepId)
  · rintro ⟨event, member, starts⟩
    exact ⟨event, List.mem_append_left _ member, starts⟩

theorem State.Started.append (started : (replay log).Started stepId) (batch : List Event) :
    (replay (log ++ batch)).Started stepId := by
  obtain ⟨event, member, starts⟩ := started
  rw [log_replay] at member
  refine ⟨event, ?_, starts⟩
  rw [log_replay]
  exact List.mem_append_left batch member

theorem Loose.after (loose : Loose rules state stepId) : Loose rules (state.after event) stepId :=
  ⟨loose.1, loose.2.after⟩

end After

/-! ## What an event changes -/

/-- How a legal event can change a step, with what it has found. -/
inductive StepChange (rules : Rules) (state : State) (payload : Payload) (stepId : String) :
    StepView → Prop
  | same : StepChange rules state payload stepId (state.steps stepId)
  | recovered : (state.steps stepId).status = .running →
      StepChange rules state payload stepId { state.steps stepId with status := .ready }
  | readied : (state.steps stepId).status = .pending →
      StepChange rules state payload stepId { state.steps stepId with status := .ready }
  | started : starts payload stepId →
      ((state.steps stepId).status = .ready ∨ (state.steps stepId).status = .failed) →
      StepChange rules state payload stepId
        { state.steps stepId with
          status := .running, attempts := (state.steps stepId).attempts + 1, nextRetryAt := none }
  | completed {output : JsonDict} : completes payload stepId = true →
      (state.steps stepId).status = .running →
      StepChange rules state payload stepId
        { state.steps stepId with status := .completed, output := some output }
  | failed : fails payload stepId = true → (state.steps stepId).status = .running →
      StepChange rules state payload stepId { state.steps stepId with status := .failed }
  | retryScheduled {runAt : Time} : (state.steps stepId).status = .failed →
      StepChange rules state payload stepId
        { state.steps stepId with nextRetryAt := some runAt }
  | held :
      ((state.steps stepId).status = .ready ∨ (state.steps stepId).status = .failed ∨
        (state.steps stepId).status = .completed ∧
          (¬ rules.requeues → ∀ step ∈ rules.definition.steps,
            stepId ∈ step.dependencies → ¬ state.Started step.stepId)) →
      StepChange rules state payload stepId
        { state.steps stepId with status := .waitingApproval }
  | released :
      ((state.steps stepId).status = .waitingApproval ∨ Loose rules state stepId) →
      (¬ state.Open stepId ∨ Loose rules state stepId) →
      state.Approved stepId →
      StepChange rules state payload stepId
        { state.steps stepId with
          status := if (state.steps stepId).output.isSome then .completed else .ready }
  | skipped :
      ((state.steps stepId).status = .waitingApproval ∨ Loose rules state stepId) →
      (¬ state.Open stepId ∨ Loose rules state stepId) →
      StepChange rules state payload stepId { state.steps stepId with status := .skipped }
  | compensated : compensates payload = true → (state.steps stepId).status = .completed →
      StepChange rules state payload stepId
        { state.steps stepId with status := .compensated }
  | requeued : Loose rules state stepId →
      StepChange rules state payload stepId
        { state.steps stepId with status := .ready, attempts := 0, nextRetryAt := none }

/-- How a legal event can change the escalations. -/
inductive EscalationChange (rules : Rules) (state : State) : List EscalationRef → Prop
  | same : EscalationChange rules state state.escalations
  | raised {ref : EscalationRef} : state.Fresh ref.escalationId → ref.resolved = false →
      (ref.stepId ≠ "" → ¬ state.Open ref.stepId ∨ Loose rules state ref.stepId) →
      EscalationChange rules state (state.escalations ++ [ref])
  | closed {ref : EscalationRef} : ref ∈ state.escalations → ref.resolved = false →
      EscalationChange rules state (state.escalations.map fun other =>
        if other.escalationId = ref.escalationId then { other with resolved := true } else other)

section Changes

variable {rules : Rules} {state : State} {event : Event} {time : Time} {payload : Payload}
  {change : StepView → StepView}

theorem steps_modifyStep (stepId other : String) (change : StepView → StepView) :
    (state.modifyStep stepId change).steps other =
      if other = stepId then change (state.steps other) else state.steps other := by
  by_cases same : other = stepId
  · subst same
    simp [State.modifyStep]
  · simp [State.modifyStep, same]

private theorem StepChange.modifyStep
    (changed : StepChange rules state payload stepId (change (state.steps stepId))) :
    StepChange rules state payload other ((state.modifyStep stepId change).steps other) := by
  rw [steps_modifyStep]
  by_cases same : other = stepId
  · subst same
    simpa using changed
  · rw [if_neg same]
    exact .same

private theorem StepChange.raiseEscalation
    (changed : escalation.stepId ≠ "" → StepChange rules state payload escalation.stepId
      { state.steps escalation.stepId with status := .waitingApproval }) :
    StepChange rules state payload other ((state.raiseEscalation escalation).steps other) := by
  unfold State.raiseEscalation
  by_cases workflowLevel : escalation.stepId = ""
  · simp only [workflowLevel, if_true]
    exact .same
  · simp only [workflowLevel, if_false]
    exact StepChange.modifyStep (changed workflowLevel)

variable (legal : Legal rules state time payload)

include legal

/-- Every legal event changes every step in one of the listed ways. -/
theorem Legal.stepChange (other : String) :
    StepChange rules state payload other ((state.advance payload).steps other) := by
  cases legal with
  | recovered _ running =>
    rw [State.advance]
    apply StepChange.modifyStep
    exact .recovered running
  | readied _ pending _ =>
    rw [State.advance]
    apply StepChange.modifyStep
    exact .readied pending
  | started _ _ _ runnable next _ _ _ _ =>
    subst next
    rw [State.advance]
    apply StepChange.modifyStep
    exact .started rfl (runnable.imp_right And.left)
  | completed _ running _ =>
    rw [State.advance]
    apply StepChange.modifyStep
    exact .completed (decide_eq_true rfl) running
  | failed _ running _ =>
    rw [State.advance]
    apply StepChange.modifyStep
    exact .failed (decide_eq_true rfl) running
  | retryScheduled _ failed =>
    rw [State.advance]
    apply StepChange.modifyStep
    exact .retryScheduled failed
  | approvalRaised _ sameStep _ runnable _ _ _ _ =>
    apply StepChange.raiseEscalation
    rw [← sameStep] at runnable
    exact fun _ => .held (runnable.imp_right .inl)
  | reviewRaised _ completed _ _ _ noDependents =>
    apply StepChange.raiseEscalation
    exact fun _ => .held (.inr (.inr ⟨completed, noDependents⟩))
  | policyRaised _ failed _ _ _ _ =>
    apply StepChange.raiseEscalation
    exact fun _ => .held (.inr (.inl failed))
  | compensationRaised workflowLevel _ _ =>
    apply StepChange.raiseEscalation
    exact fun stepLevel => absurd workflowLevel stepLevel
  | released _ waiting closed approved =>
    rw [State.advance]
    apply StepChange.modifyStep
    exact .released waiting closed approved
  | skipped _ waiting closed =>
    rw [State.advance]
    apply StepChange.modifyStep
    exact .skipped waiting closed
  | compensated _ completed _ =>
    rw [State.advance]
    apply StepChange.modifyStep
    exact .compensated rfl completed
  | @requeued stepId _ _ requeues _ started _ =>
    change StepChange rules state _ other ((state.modifyStep stepId fun step =>
      { step with status := .ready, attempts := 0, nextRetryAt := none }).steps other)
    apply StepChange.modifyStep
    exact .requeued ⟨requeues, started⟩
  | _ => exact .same

omit legal in
theorem Legal.stepChange_after (legal : Legal rules state event.occurredAt event.payload)
    (other : String) :
    StepChange rules state event.payload other ((state.after event).steps other) :=
  legal.stepChange other

omit legal in
private theorem eq_of_modifyStep_ne
    (changed : (state.modifyStep stepId change).steps other ≠ state.steps other) :
    other = stepId := by
  by_contra different
  rw [steps_modifyStep, if_neg different] at changed
  exact changed rfl

omit legal in
private theorem eq_of_raiseEscalation_ne
    (changed : (state.raiseEscalation escalation).steps other ≠ state.steps other) :
    other = escalation.stepId ∧ escalation.stepId ≠ "" := by
  unfold State.raiseEscalation at changed
  by_cases workflowLevel : escalation.stepId = ""
  · simp [workflowLevel] at changed
  · simp only [workflowLevel, if_false] at changed
    exact ⟨eq_of_modifyStep_ne changed, workflowLevel⟩

/-- Legal events change no step outside the definition. -/
theorem Legal.mem_of_changed (changed : (state.advance payload).steps other ≠ state.steps other) :
    other ∈ rules.definition.stepIds := by
  cases legal with
  | recovered member _ | completed member _ _ | failed member _ _ | retryScheduled member _
  | released member _ _ _ | skipped member _ _ | compensated member _ _ =>
    rw [State.advance] at changed
    rw [eq_of_modifyStep_ne changed]
    exact member
  | readied member _ _ | started member _ _ _ _ _ _ _ _ =>
    rw [State.advance] at changed
    rw [eq_of_modifyStep_ne changed]
    exact List.mem_map_of_mem member
  | approvalRaised member sameStep _ _ _ _ _ _ =>
    rw [State.advance] at changed
    rw [(eq_of_raiseEscalation_ne changed).1, sameStep]
    exact List.mem_map_of_mem member
  | reviewRaised member _ _ _ _ _ | policyRaised member _ _ _ _ _ =>
    rw [State.advance] at changed
    rw [(eq_of_raiseEscalation_ne changed).1]
    exact member
  | compensationRaised workflowLevel _ _ =>
    rw [State.advance] at changed
    exact absurd workflowLevel (eq_of_raiseEscalation_ne changed).2
  | @requeued stepId _ _ _ member _ _ =>
    rw [State.advance] at changed
    have same : other = stepId :=
      eq_of_modifyStep_ne (show _ ≠ ({ state with status := .running } : State).steps other
        from changed)
    rw [same]
    exact member
  | _ => exact absurd rfl changed

omit legal in
private theorem EscalationChange.raiseEscalation (fresh : state.Fresh escalation.escalationId)
    (closed : escalation.stepId ≠ "" →
      ¬ state.Open escalation.stepId ∨ Loose rules state escalation.stepId) :
    EscalationChange rules state (state.raiseEscalation escalation).escalations :=
  .raised fresh rfl closed

theorem Legal.escalationChange :
    EscalationChange rules state (state.advance payload).escalations := by
  cases legal with
  | approvalRaised _ sameStep _ _ notOpen _ fresh _ =>
    rw [← sameStep] at notOpen
    exact .raiseEscalation fresh fun _ => .inl notOpen
  | reviewRaised _ _ notOpen fresh _ _ => exact .raiseEscalation fresh fun _ => notOpen
  | policyRaised _ _ _ notOpen fresh _ => exact .raiseEscalation fresh fun _ => notOpen
  | compensationRaised workflowLevel fresh _ =>
    exact .raiseEscalation fresh fun stepLevel => absurd workflowLevel stepLevel
  | resolved member unresolved _ => exact .closed member unresolved
  | timedOut member unresolved _ => exact .closed member unresolved
  | _ => exact .same

theorem Legal.of_starts (started : starts payload stepId) :
    ∃ step ∈ rules.definition.steps, step.stepId = stepId ∧
      (¬ rules.requeues → ∀ dependency ∈ step.dependencies, state.Done dependency) ∧
      ((state.steps stepId).status = .ready ∨ (state.steps stepId).status = .failed) ∧
      (step.requiresApproval = true → state.Granted stepId) := by
  cases legal with
  | @started step _ _ _ member _ done runnable _ _ _ _ granted =>
    cases started
    exact ⟨step, member, rfl, done, runnable.imp_right And.left, granted⟩
  | _ => exact started.elim

theorem Legal.of_completes (completed : completes payload stepId = true) :
    (state.steps stepId).status = .running ∧
      ((state.advance payload).steps stepId).output ≠ none := by
  cases legal with
  | completed _ running _ =>
    have same := of_decide_eq_true completed
    subst same
    refine ⟨running, ?_⟩
    simp [State.advance, State.modifyStep]
  | _ => cases completed

omit legal in
theorem steps_advance_of_starts (started : starts payload stepId)
    (different : other ≠ stepId) : (state.advance payload).steps other = state.steps other := by
  cases payload with
  | stepStarted started _ _ _ =>
    cases started
    rw [State.advance, steps_modifyStep, if_neg different]
  | _ => exact started.elim

omit legal in
private theorem granted_of_closeEscalation {stepId escalationId : String}
    (granted : (state.closeEscalation escalationId).Granted stepId) :
    state.Granted stepId ∨ state.Open stepId := by
  obtain ⟨ref, member, rfl, resolved⟩ := granted
  obtain ⟨old, oldMember, rfl⟩ := List.mem_map.mp member
  have sameStep : old.stepId = (if old.escalationId = escalationId
      then { old with resolved := true } else old).stepId := by
    split <;> rfl
  cases wasResolved : old.resolved with
  | true => exact .inl ⟨old, oldMember, sameStep, wasResolved⟩
  | false => exact .inr ⟨old, oldMember, sameStep, wasResolved⟩

omit legal in
private theorem granted_of_raiseEscalation
    (granted : (state.raiseEscalation escalation).Granted stepId) : state.Granted stepId := by
  obtain ⟨ref, member, sameStep, resolved⟩ := granted
  rcases List.mem_append.mp member with old | new
  · exact ⟨ref, old, sameStep, resolved⟩
  · rw [List.mem_singleton] at new
    rw [new] at resolved
    cases resolved

omit legal in
/-- A step gets a resolved escalation when one of its open ones is closed, which
leaves the step as it is. -/
theorem granted_of_advance (granted : (state.advance payload).Granted stepId) :
    state.Granted stepId ∨
      state.Open stepId ∧ (state.advance payload).steps stepId = state.steps stepId := by
  cases payload with
  | escalationRaised _ => exact .inl (granted_of_raiseEscalation granted)
  | escalationResolved _ _ _ _ _ =>
    exact (granted_of_closeEscalation granted).imp_right fun isOpen => ⟨isOpen, rfl⟩
  | escalationTimedOut _ _ _ =>
    exact (granted_of_closeEscalation granted).imp_right fun isOpen => ⟨isOpen, rfl⟩
  | costCharged _ _ _ _ _ => exact .inl granted
  | workflowRequeued stepId _ _ =>
    cases stepId with
    | none => exact .inl granted
    | some _ => exact .inl granted
  | _ => exact .inl granted

/-- An escalation that is added about a step holds it. -/
theorem Legal.waiting_of_raised {ref : EscalationRef}
    (grown : (state.advance payload).escalations = state.escalations ++ [ref])
    (stepLevel : ref.stepId ≠ "") :
    ((state.advance payload).steps ref.stepId).status = .waitingApproval := by
  have raised {escalation : Escalation}
      (grown : (state.raiseEscalation escalation).escalations = state.escalations ++ [ref]) :
      ((state.raiseEscalation escalation).steps ref.stepId).status = .waitingApproval := by
    have same := List.singleton_injective (List.append_cancel_left grown)
    rw [← same] at stepLevel
    rw [← same]
    simp [State.raiseEscalation, State.modifyStep, show escalation.stepId ≠ "" from stepLevel]
  cases legal with
  | approvalRaised => exact raised grown
  | reviewRaised => exact raised grown
  | policyRaised => exact raised grown
  | compensationRaised => exact raised grown
  | _ =>
    have lengths := congrArg List.length grown
    simp [State.advance, State.closeEscalation, State.modifyStep] at lengths

omit legal in
/-- Only a completion gives a step an output. -/
theorem StepChange.output_eq {next : StepView} (change : StepChange rules state payload stepId next)
    (notCompleted : completes payload stepId = false) :
    next.output = (state.steps stepId).output := by
  cases change with
  | completed completed _ => exact absurd completed (Bool.eq_false_iff.mp notCompleted)
  | _ => rfl

/-- Without requeues the attempts of a step are never counted back. -/
theorem Legal.attempts_le (noRequeue : ¬ rules.requeues) (stepId : String) :
    (state.steps stepId).attempts ≤ ((state.advance payload).steps stepId).attempts := by
  have change := legal.stepChange stepId
  generalize (state.advance payload).steps stepId = next at change
  cases change with
  | started _ _ => exact Nat.le_succ _
  | requeued loose => exact absurd loose.1 noRequeue
  | _ => exact le_rfl

omit legal

theorem LegalBatch.attempts_le {batch : List Event} (legal : LegalBatch rules state batch)
    (accepted : state.AcceptsAll batch) (noRequeue : ¬ rules.requeues) (stepId : String) :
    (state.steps stepId).attempts ≤ ((state.afterAll batch).steps stepId).attempts := by
  induction batch generalizing state with
  | nil => exact le_rfl
  | cons event rest ih =>
    exact (legal.1.attempts_le noRequeue stepId).trans (ih (legal.2 accepted.1) accepted.2)

end Changes

/-! ## The invariants -/

structure Invariant (rules : Rules) (state : State) : Prop where
  /-- Only steps of the definition are touched. -/
  known : ∀ stepId, (state.steps stepId).status ≠ .pending → stepId ∈ rules.definition.stepIds
  started : ∀ stepId, state.Started stepId → (state.steps stepId).status ≠ .pending
  /-- Escalations have distinct identifiers. -/
  ids : (state.escalations.map EscalationRef.escalationId).Nodup
  /-- An unresolved escalation holds its step. -/
  held : ∀ ref ∈ state.escalations, ref.resolved = false → ref.stepId ≠ "" →
    (state.steps ref.stepId).status = .waitingApproval ∨ Loose rules state ref.stepId
  /-- No step has two unresolved escalations. -/
  single : ∀ ref ∈ state.escalations, ∀ other ∈ state.escalations,
    ref.resolved = false → other.resolved = false → ref.stepId = other.stepId →
      ref.stepId ≠ "" → ref = other ∨ Loose rules state ref.stepId
  completedOutput : ∀ stepId, (state.steps stepId).status = .completed →
    (state.steps stepId).output ≠ none
  /-- A step with an output never becomes runnable again. -/
  outputStatus : ¬ rules.requeues → ∀ stepId, (state.steps stepId).output ≠ none →
    (state.steps stepId).status = .completed ∨ (state.steps stepId).status = .waitingApproval ∨
      (state.steps stepId).status = .skipped ∨ (state.steps stepId).status = .compensated
  completions : ¬ rules.requeues → ∀ stepId,
    state.completions stepId = if (state.steps stepId).output = none then 0 else 1
  startedStatus : ∀ stepId,
    (state.steps stepId).status = .running ∨ (state.steps stepId).status = .failed ∨
      (state.steps stepId).output ≠ none → state.Started stepId
  /-- The dependencies of a started step are settled. -/
  depsSettled : ¬ rules.requeues → ∀ step ∈ rules.definition.steps, state.Started step.stepId →
    ∀ dependency ∈ step.dependencies, state.Done dependency ∨
      (state.steps dependency).status = .compensated
  startedApproved : ∀ step ∈ rules.definition.steps, step.requiresApproval = true →
    state.Started step.stepId → state.Approved step.stepId
  /-- A resolved escalation without an approval has not made its step runnable. -/
  grantedApproved : ∀ step ∈ rules.definition.steps, step.requiresApproval = true →
    state.Granted step.stepId → ¬ state.Approved step.stepId →
      (state.steps step.stepId).status = .waitingApproval ∨
        (state.steps step.stepId).status = .skipped

section Escalations

variable {rules : Rules} {state : State} {next : List EscalationRef}

theorem EscalationChange.ids (change : EscalationChange rules state next)
    (ids : (state.escalations.map EscalationRef.escalationId).Nodup) :
    (next.map EscalationRef.escalationId).Nodup := by
  cases change with
  | same => exact ids
  | @raised ref fresh _ _ =>
    rw [List.map_append, List.nodup_append]
    refine ⟨ids, List.nodup_singleton _, ?_⟩
    intro id member other otherMember same
    rw [List.map_singleton, List.mem_singleton] at otherMember
    rw [same, otherMember] at member
    exact fresh member
  | @closed ref _ _ =>
    rw [List.map_map]
    have same : EscalationRef.escalationId ∘ (fun other : EscalationRef =>
        if other.escalationId = ref.escalationId then { other with resolved := true }
        else other) = EscalationRef.escalationId := by
      funext other
      simp only [Function.comp]
      split <;> rfl
    rwa [same]

/-- An unresolved escalation was unresolved before, or it has just been raised. -/
theorem EscalationChange.unresolved (change : EscalationChange rules state next)
    {ref : EscalationRef} (member : ref ∈ next) (unresolved : ref.resolved = false) :
    ref ∈ state.escalations ∨
      (ref.stepId ≠ "" → ¬ state.Open ref.stepId ∨ Loose rules state ref.stepId) ∧
        next = state.escalations ++ [ref] := by
  cases change with
  | same => exact .inl member
  | @raised raised _ _ notOpen =>
    rcases List.mem_append.mp member with old | new
    · exact .inl old
    · rw [List.mem_singleton] at new
      subst new
      exact .inr ⟨notOpen, rfl⟩
  | @closed closed _ _ =>
    obtain ⟨old, oldMember, rfl⟩ := List.mem_map.mp member
    by_cases same : old.escalationId = closed.escalationId
    · simp [same] at unresolved
    · exact .inl (by simpa [same] using oldMember)

end Escalations

namespace Invariant

variable {rules : Rules} {state : State} {event : Event}

variable (legal : Legal rules state event.occurredAt event.payload)

include legal

/-- A step with an open escalation keeps waiting. -/
theorem waiting_after
    (waiting : (state.steps stepId).status = .waitingApproval ∨ Loose rules state stepId)
    (isOpen : state.Open stepId) : ((state.after event).steps stepId).status = .waitingApproval ∨
      Loose rules (state.after event) stepId := by
  rcases waiting with waiting | loose
  · have change := legal.stepChange_after stepId
    generalize (state.after event).steps stepId = next at change
    cases change with
    | same => exact .inl waiting
    | held _ => exact .inl rfl
    | released _ closed _ => exact .inr (closed.resolve_left (not_not_intro isOpen)).after
    | skipped _ closed => exact .inr (closed.resolve_left (not_not_intro isOpen)).after
    | requeued loose => exact .inr loose.after
    | started _ runnable => simp [waiting] at runnable
    | completed _ running => simp [waiting] at running
    | failed _ running => simp [waiting] at running
    | compensated _ completed => simp [waiting] at completed
    | _ found => simp [waiting] at found
  · exact .inr loose.after

variable (inv : Invariant rules state) {dependency : String}

include inv

theorem held_after :
    ∀ ref ∈ (state.after event).escalations, ref.resolved = false → ref.stepId ≠ "" →
      ((state.after event).steps ref.stepId).status = .waitingApproval ∨
        Loose rules (state.after event) ref.stepId := by
  intro ref member unresolved stepLevel
  rcases legal.escalationChange.unresolved member unresolved with old | ⟨_, grown⟩
  · exact waiting_after legal (inv.held ref old unresolved stepLevel) ⟨ref, old, rfl, unresolved⟩
  · exact .inl (legal.waiting_of_raised grown stepLevel)

theorem single_after :
    ∀ ref ∈ (state.after event).escalations, ∀ other ∈ (state.after event).escalations,
      ref.resolved = false → other.resolved = false → ref.stepId = other.stepId →
        ref.stepId ≠ "" → ref = other ∨ Loose rules (state.after event) ref.stepId := by
  intro ref member other otherMember unresolved otherUnresolved sameStep stepLevel
  have change := legal.escalationChange
  rcases change.unresolved member unresolved with old | ⟨notOpen, grown⟩
  · rcases change.unresolved otherMember otherUnresolved with otherOld | ⟨notOpen, _⟩
    · exact (inv.single ref old other otherOld unresolved otherUnresolved sameStep
        stepLevel).imp_right Loose.after
    · rcases notOpen (sameStep ▸ stepLevel) with notOpen | loose
      · exact absurd ⟨ref, old, sameStep, unresolved⟩ notOpen
      · rw [← sameStep] at loose
        exact .inr loose.after
  · rcases change.unresolved otherMember otherUnresolved with otherOld | ⟨_, otherGrown⟩
    · rcases notOpen stepLevel with notOpen | loose
      · exact absurd ⟨other, otherOld, sameStep.symm, otherUnresolved⟩ notOpen
      · exact .inr loose.after
    · rw [grown] at otherGrown
      exact .inl (List.singleton_injective (List.append_cancel_left otherGrown))

theorem completedOutput_after (stepId : String)
    (completed : ((state.after event).steps stepId).status = .completed) :
    ((state.after event).steps stepId).output ≠ none := by
  have change := legal.stepChange_after stepId
  generalize (state.after event).steps stepId = next at change completed
  cases change with
  | same => exact inv.completedOutput stepId completed
  | completed _ _ => exact Option.some_ne_none _
  | released _ _ _ => simpa using completed
  | retryScheduled failed => exact inv.completedOutput stepId completed
  | _ => cases completed

variable (noRequeue : ¬ rules.requeues)

include noRequeue

theorem outputStatus_after (stepId : String)
    (output : ((state.after event).steps stepId).output ≠ none) :
    ((state.after event).steps stepId).status = .completed ∨
      ((state.after event).steps stepId).status = .waitingApproval ∨
      ((state.after event).steps stepId).status = .skipped ∨
      ((state.after event).steps stepId).status = .compensated := by
  have change := legal.stepChange_after stepId
  generalize (state.after event).steps stepId = next at change output
  have before := inv.outputStatus noRequeue stepId
  cases change with
  | same => exact before output
  | completed _ _ => exact .inl rfl
  | held _ => exact .inr (.inl rfl)
  | released _ _ _ => exact .inl (if_pos (Option.isSome_iff_ne_none.mpr output))
  | skipped _ _ => exact .inr (.inr (.inl rfl))
  | compensated _ _ => exact .inr (.inr (.inr rfl))
  | requeued loose => exact absurd loose.1 noRequeue
  | started _ runnable =>
    rcases runnable with found | found <;> simp [found] at before <;> exact absurd before output
  | failed _ running =>
    simp [running] at before
    exact absurd before output
  | _ found =>
    simp [found] at before
    exact absurd before output

theorem completions_count_after (stepId : String) : (state.after event).completions stepId =
      if ((state.after event).steps stepId).output = none then 0 else 1 := by
  rw [completions_after, inv.completions noRequeue stepId]
  cases completed : completes event.payload stepId with
  | true =>
    obtain ⟨running, output⟩ := legal.of_completes completed
    have missing : (state.steps stepId).output = none := by
      by_contra found
      have settled := inv.outputStatus noRequeue stepId found
      simp [running] at settled
    rw [if_pos missing, if_neg (show ((state.after event).steps stepId).output ≠ none from output)]
    rfl
  | false =>
    rw [show ((state.after event).steps stepId).output = (state.steps stepId).output from
      (legal.stepChange stepId).output_eq completed]
    rfl

omit noRequeue in
theorem startedStatus_after (stepId : String)
    (active : ((state.after event).steps stepId).status = .running ∨ ((state.after event).steps
      stepId).status = .failed ∨ ((state.after event).steps stepId).output ≠ none) :
    (state.after event).Started stepId := by
  have change := legal.stepChange_after stepId
  generalize (state.after event).steps stepId = next at change active
  have before := inv.startedStatus stepId
  rw [started_after]
  cases change with
  | started starts _ => exact .inr starts
  | completed _ running => exact .inl (before (.inl running))
  | failed _ running => exact .inl (before (.inl running))
  | retryScheduled failed => exact .inl (before (.inr (.inl failed)))
  | same => exact .inl (before active)
  | released _ _ _ =>
    have output : (state.steps stepId).output ≠ none := by
      by_contra missing
      simp [missing] at active
    exact .inl (before (.inr (.inr output)))
  | _ => exact .inl (before (.inr (.inr (by simpa using active))))

omit inv in
/-- A done step stays done or is compensated, unless a review of it is raised
before anything that depends on it has started. -/
theorem done_after (done : state.Done dependency ∨ (state.steps dependency).status = .compensated)
    (member : step ∈ rules.definition.steps) (depends : dependency ∈ step.dependencies)
    (started : state.Started step.stepId) : (state.after event).Done dependency ∨
      ((state.after event).steps dependency).status = .compensated := by
  have change := legal.stepChange_after dependency
  unfold State.Done at done ⊢
  generalize (state.after event).steps dependency = next at change
  cases change with
  | same => exact done
  | held found =>
    rcases found with found | found | ⟨_, noDependents⟩
    · simp [found] at done
    · simp [found] at done
    · exact absurd started (noDependents noRequeue step member depends)
  | skipped _ _ => exact .inl (.inr rfl)
  | compensated _ _ => exact .inr rfl
  | requeued loose => exact absurd loose.1 noRequeue
  | released waiting _ _ =>
    rcases waiting with waiting | loose
    · simp [waiting] at done
    · exact absurd loose.1 noRequeue
  | completed _ _ => exact .inl (.inl rfl)
  | started _ runnable => rcases runnable with found | found <;> simp [found] at done
  | failed _ running => simp [running] at done
  | _ found => simp [found] at done

theorem depsSettled_after (member : step ∈ rules.definition.steps)
    (started : (state.after event).Started step.stepId) (depends : dependency ∈ step.dependencies) :
    (state.after event).Done dependency ∨
      ((state.after event).steps dependency).status = .compensated := by
  rcases (started_after _).mp started with old | now
  · exact done_after legal noRequeue (inv.depsSettled noRequeue step member old dependency depends)
      member depends old
  · obtain ⟨found, foundMember, sameId, done, _, _⟩ := legal.of_starts now
    have same := rules.definition.eq_of_stepId_eq foundMember member sameId
    subst same
    have different := (rules.definition.dependency_mem_stepIds member depends).1
    have unchanged : (state.after event).steps dependency = state.steps dependency :=
      steps_advance_of_starts now different
    unfold State.Done
    rw [unchanged]
    exact .inl (done noRequeue dependency depends)

omit noRequeue

theorem startedApproved_after (member : step ∈ rules.definition.steps)
    (gated : step.requiresApproval = true) (started : (state.after event).Started step.stepId) :
    (state.after event).Approved step.stepId := by
  rcases (started_after _).mp started with old | now
  · exact (inv.startedApproved step member gated old).after
  · obtain ⟨found, foundMember, sameId, _, runnable, granted⟩ := legal.of_starts now
    have same := rules.definition.eq_of_stepId_eq foundMember member sameId
    subst same
    by_contra unapproved
    have before : ¬ state.Approved found.stepId := fun approved => unapproved approved.after
    have parked := inv.grantedApproved found member gated (granted gated) before
    rcases runnable with ready | failed
    · simp [ready] at parked
    · simp [failed] at parked

theorem grantedApproved_after (member : step ∈ rules.definition.steps)
    (gated : step.requiresApproval = true) (granted : (state.after event).Granted step.stepId)
    (unapproved : ¬ (state.after event).Approved step.stepId) :
    ((state.after event).steps step.stepId).status = .waitingApproval ∨
      ((state.after event).steps step.stepId).status = .skipped := by
  have before : ¬ state.Approved step.stepId := fun approved => unapproved approved.after
  have notLoose : ¬ Loose rules state step.stepId := fun loose =>
    before (inv.startedApproved step member gated loose.2)
  rcases granted_of_advance granted with old | ⟨⟨ref, refMember, sameStep, unresolved⟩, unchanged⟩
  · have parked := inv.grantedApproved step member gated old before
    have change := legal.stepChange_after step.stepId
    generalize (state.after event).steps step.stepId = next at change
    cases change with
    | same => exact parked
    | held _ => exact .inl rfl
    | skipped _ _ => exact .inr rfl
    | released _ _ approved => exact absurd approved before
    | requeued loose => exact absurd loose notLoose
    | started _ runnable => rcases runnable with found | found <;> simp [found] at parked
    | completed _ running => simp [running] at parked
    | failed _ running => simp [running] at parked
    | compensated _ completed => simp [completed] at parked
    | _ found => simp [found] at parked
  · have stepLevel := rules.definition.stepId_ne_empty
      (List.mem_map_of_mem (f := WorkflowStep.stepId) member)
    rw [← sameStep] at stepLevel notLoose
    have waiting := (inv.held ref refMember unresolved stepLevel).resolve_right notLoose
    rw [sameStep] at waiting
    exact .inl (by rw [show (state.after event).steps step.stepId = _ from unchanged, waiting])

theorem known_after (stepId : String)
    (touched : ((state.after event).steps stepId).status ≠ .pending) :
    stepId ∈ rules.definition.stepIds := by
  by_cases same : (state.advance event.payload).steps stepId = state.steps stepId
  · apply inv.known stepId
    rwa [← same]
  · exact legal.mem_of_changed same

theorem started_not_pending_after (stepId : String) (started : (state.after event).Started stepId) :
    ((state.after event).steps stepId).status ≠ .pending := by
  have change := legal.stepChange_after stepId
  rcases (started_after stepId).mp started with old | now
  · have before := inv.started stepId old
    generalize (state.after event).steps stepId = next at change
    cases change with
    | same => exact before
    | retryScheduled _ => exact before
    | released _ _ _ => by_cases found : (state.steps stepId).output.isSome <;> simp [found]
    | _ => simp
  · obtain ⟨_, _, _, _, runnable, _⟩ := legal.of_starts now
    generalize (state.after event).steps stepId = next at change
    cases change with
    | same => rcases runnable with found | found <;> simp [found]
    | retryScheduled failed => simp [failed]
    | released _ _ _ => by_cases found : (state.steps stepId).output.isSome <;> simp [found]
    | _ => simp

/-- Every legal event keeps the invariants. -/
theorem after :
    Invariant rules (state.after event) where
  known := inv.known_after legal
  started := inv.started_not_pending_after legal
  ids := legal.escalationChange.ids inv.ids
  held := inv.held_after legal
  single := inv.single_after legal
  completedOutput := inv.completedOutput_after legal
  outputStatus := inv.outputStatus_after legal
  completions := inv.completions_count_after legal
  startedStatus := inv.startedStatus_after legal
  depsSettled noRequeue _ member started _ depends :=
    inv.depsSettled_after legal noRequeue member started depends
  startedApproved _ member gated started := inv.startedApproved_after legal member gated started
  grantedApproved _ member gated granted unapproved :=
    inv.grantedApproved_after legal member gated granted unapproved

end Invariant

/-! ## Runs -/

/-- Nothing has happened to a fresh instance. -/
theorem Invariant.genesis {event : Event} (isGenesis : event.isGenesis = true) :
    Invariant rules (replay [event]) := by
  obtain ⟨budgetLimitUsd, fresh⟩ := replay_genesis isGenesis
  have starts (stepId : String) : ¬ Protocol.starts event.payload stepId := by
    unfold Event.isGenesis at isGenesis
    cases payload : event.payload <;> simp [payload, Protocol.starts] at isGenesis ⊢
  have completes (stepId : String) : Protocol.completes event.payload stepId = false := by
    unfold Event.isGenesis at isGenesis
    cases payload : event.payload <;> simp [payload, Protocol.completes] at isGenesis ⊢
  rw [fresh]
  constructor
  case ids => exact List.nodup_nil
  case held | single => rintro ref ⟨⟩
  case completions => simp [State.completions, State.initial, completes]
  case startedApproved | depsSettled | started => simp [State.Started, starts]
  case grantedApproved => simp [State.Granted, State.initial]
  all_goals simp [State.initial]

/-- The invariants hold along every run. -/
theorem Run.invariant (run : Run rules log) : Invariant rules (replay log) := by
  induction run with
  | genesis isGenesis => exact .genesis isGenesis
  | step _ legal _ ih =>
    rw [replay_concat]
    exact ih.after legal

/-- A step that is not waiting has no open escalation, requeues apart. -/
theorem Invariant.not_open_or_loose (inv : Invariant rules state) (stepLevel : stepId ≠ "")
    (notWaiting : (state.steps stepId).status ≠ .waitingApproval) :
    ¬ state.Open stepId ∨ Loose rules state stepId := by
  by_cases isOpen : state.Open stepId
  · obtain ⟨ref, member, rfl, unresolved⟩ := isOpen
    exact .inr ((inv.held ref member unresolved stepLevel).resolve_left notWaiting)
  · exact .inl isOpen

/-- The fold takes a legal event, unless it moves a step as the table of steps
does not allow or requeues the workflow. -/
theorem Legal.accepts_of_allowed {time : Time} (legal : Legal rules state time payload)
    (allowed : ∀ stepId source target reason,
      payload = .stepStatusChanged stepId source target reason →
        stepTransitionAllowed source target = true)
    (kept : ∀ stepId requeuedBy dlqId, payload ≠ .workflowRequeued stepId requeuedBy dlqId) :
    state.Accepts payload := by
  cases legal with
  | released _ _ _ _ | skipped _ _ _ => exact ⟨rfl, allowed _ _ _ _ rfl⟩
  | approvalRaised _ sameStep _ runnable _ _ _ _ =>
    right
    rw [sameStep]
    rcases runnable with found | found <;> rw [found] <;> rfl
  | reviewRaised _ found _ _ _ _ => exact .inr (by rw [found]; rfl)
  | policyRaised _ found _ _ _ _ => exact .inr (by rw [found]; rfl)
  | compensationRaised workflowLevel _ _ => exact .inl workflowLevel
  | started _ _ _ runnable _ _ _ _ _ =>
    change stepTransitionAllowed _ _ = true
    rcases runnable with found | ⟨found, _⟩ <;> rw [found] <;> rfl
  | recovered _ found => exact ⟨found.symm, by rw [found]; rfl⟩
  | readied _ found _ => exact ⟨found.symm, by rw [found]; rfl⟩
  | completed _ found _ | failed _ found _ | compensated _ found _ =>
    change stepTransitionAllowed _ _ = true
    rw [found]
    rfl
  | moved permitted _ => exact ⟨rfl, .inr permitted⟩
  | finished running _ => exact ⟨running.symm, .inr (by rw [running]; rfl)⟩
  | outputsRecorded completed _ _ => exact .inl completed
  | requeued _ _ _ _ => exact absurd rfl (kept _ _ _)
  | _ => trivial

/-- Without requeues the fold takes every legal event. -/
theorem Legal.accepts {time : Time} (legal : Legal rules state time payload)
    (noRequeue : ¬ rules.requeues) : state.Accepts payload := by
  have notLoose : ∀ stepId, ¬ Loose rules state stepId := fun _ loose => noRequeue loose.1
  apply legal.accepts_of_allowed
  · rintro stepId source target reason rfl
    cases legal with
    | recovered _ _ | readied _ _ _ => rfl
    | released _ waiting _ _ =>
      rw [waiting.resolve_right (notLoose _)]
      split <;> rfl
    | skipped _ waiting _ =>
      rw [waiting.resolve_right (notLoose _)]
      rfl
  · rintro stepId requeuedBy dlqId rfl
    cases legal with
    | requeued requeues _ _ _ => exact noRequeue requeues

/-- A legal batch is taken if each of its events is. -/
theorem LegalBatch.acceptsAll_of (legal : LegalBatch rules state events)
    (each : ∀ event ∈ events, ∀ state : State,
      Legal rules state event.occurredAt event.payload → state.Accepts event.payload) :
    state.AcceptsAll events := by
  induction events generalizing state with
  | nil => trivial
  | cons event rest ih =>
    have accepted := each event List.mem_cons_self state legal.1
    exact ⟨accepted, ih (legal.2 accepted) fun other member =>
      each other (List.mem_cons_of_mem _ member)⟩

/-- Without requeues the fold takes every legal batch. -/
theorem LegalBatch.acceptsAll (legal : LegalBatch rules state events)
    (noRequeue : ¬ rules.requeues) :
    state.AcceptsAll events :=
  legal.acceptsAll_of fun _ _ _ legal => legal.accepts noRequeue

/-- A running step is not waiting for a retry. -/
theorem Run.unscheduled_of_running (run : Run rules log)
    (running : ((replay log).steps stepId).status = .running) :
    ((replay log).steps stepId).nextRetryAt = none := by
  induction run with
  | genesis isGenesis =>
    obtain ⟨_, same⟩ := replay_genesis isGenesis
    rw [same] at running
    cases running
  | @step log event _ legal _ ih =>
    rw [replay_concat] at running ⊢
    have change := legal.stepChange_after stepId
    generalize ((replay log).after event).steps stepId = next at change running ⊢
    cases change with
    | same => exact ih running
    | started _ _ => rfl
    | released _ _ _ =>
      by_cases output : ((replay log).steps stepId).output.isSome <;> simp [output] at running
    | retryScheduled failed => simp [failed] at running
    | _ => simp at running

end AgentForge.Protocol
