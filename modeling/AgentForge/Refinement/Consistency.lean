import AgentForge.Engine.World
import AgentForge.Protocol.Rest

/-!
# Consistent worlds

The invariant that ties a world to the protocol: its log is a run of legal
events at rest, the escalation rows mirror the escalations of the log, dead
letters name steps that have been started.  Committing a legal batch keeps it.
-/

namespace AgentForge.Refinement

open Domain Events Library Store Engine Protocol

/-- The rules that the actors of a setting follow. -/
def rulesOf (setting : Setting) : Rules where
  definition := setting.definition
  monotone := setting.monotoneClock
  requeues := ∃ dlqId requeuedBy, setting.admits (.requeue dlqId requeuedBy)
  operators := ∃ operator, setting.admits (.pause operator) ∨ setting.admits (.resume operator) ∨
    setting.admits (.abort operator)

theorem not_requeues_of_noRequeue {setting : Setting} (noRequeue : setting.NoRequeue) :
    ¬ (rulesOf setting).requeues :=
  fun ⟨dlqId, requeuedBy, admitted⟩ => noRequeue dlqId requeuedBy admitted

/-! ## Escalation rows -/

/-- Every row belongs to an escalation of the log, and a pending one to an
unresolved escalation. -/
def RowsMatch (owner : String × String) (rows : Dict String EscalationRow) (state : State) :
    Prop :=
  ∀ escalationId row, rows.get? escalationId = some row →
    row.escalationId = escalationId ∧ (row.instanceId, row.tenantId) = owner ∧
      ∃ ref ∈ state.escalations, ref.escalationId = escalationId ∧ ref.stepId = row.stepId ∧
        (row.status = .pending → ref.resolved = false)

section Rows

variable {owner : String × String} {rows : Dict String EscalationRow} {state : State}
  {event : Event}

variable (rowsMatch : RowsMatch owner rows state)

include rowsMatch

private theorem RowsMatch.raise {escalation : Escalation} (owned : event.owner = owner)
    (raised : event.payload = .escalationRaised escalation) :
    RowsMatch owner (projectEscalation rows event) (state.after event) := by
  intro escalationId row found
  have escalations : (state.after event).escalations = state.escalations ++
      [{ escalationId := escalation.escalationId, stepId := escalation.stepId,
         reason := escalation.reason, deadline := escalation.deadline }] := by
    rw [State.after, raised]
    rfl
  rw [projectEscalation, raised] at found
  rw [Dict.get?_setDefault] at found
  cases stored : rows.get? escalationId with
  | some old =>
    rw [stored] at found
    cases found
    obtain ⟨sameId, sameOwner, ref, member, facts⟩ := rowsMatch _ _ stored
    exact ⟨sameId, sameOwner, ref, by rw [escalations]; simp [member], facts⟩
  | none =>
    rw [stored] at found
    by_cases same : escalationId = escalation.escalationId
    · subst same
      rw [if_pos rfl] at found
      cases found
      refine ⟨rfl, owned, ⟨escalation.escalationId, escalation.stepId, escalation.reason,
        escalation.deadline, false⟩, ?_, rfl, rfl, fun _ => rfl⟩
      rw [escalations]
      simp
    · rw [if_neg same] at found
      cases found

private theorem RowsMatch.close (closed : String) (change : EscalationRow → EscalationRow)
    (unchanged : ∀ row, (change row).escalationId = row.escalationId ∧ (change row).instanceId =
      row.instanceId ∧ (change row).tenantId = row.tenantId ∧ (change row).stepId = row.stepId ∧
      (change row).status ≠ .pending) :
    RowsMatch owner
      (match rows.get? closed with
        | none => rows
        | some row => rows.set closed (change row))
      (state.closeEscalation closed) := by
  intro escalationId row found
  by_cases same : escalationId = closed
  · subst same
    cases stored : rows.get? escalationId with
    | none =>
      simp only [stored] at found
      cases found
    | some old =>
      simp only [stored, Dict.get?_set_self, Option.some.injEq] at found
      subst found
      obtain ⟨sameId, sameOwner, ref, member, refId, refStep, _⟩ := rowsMatch _ _ stored
      obtain ⟨keepsId, keepsInstance, keepsTenant, keepsStep, notPending⟩ := unchanged old
      refine ⟨keepsId.trans sameId, by rw [keepsInstance, keepsTenant, sameOwner],
        { ref with resolved := true }, ?_, refId, refStep.trans keepsStep.symm,
        fun pending => absurd pending notPending⟩
      exact List.mem_map.mpr ⟨ref, member, if_pos refId⟩
  · have old : rows.get? escalationId = some row := by
      cases stored : rows.get? closed with
      | none => simpa only [stored] using found
      | some other => simpa only [stored, Dict.get?_set_ne rows same] using found
    obtain ⟨sameId, sameOwner, ref, member, refId, facts⟩ := rowsMatch _ _ old
    refine ⟨sameId, sameOwner, ref, ?_, refId, facts⟩
    exact List.mem_map.mpr ⟨ref, member, if_neg (refId ▸ same)⟩

/-- Projecting an event keeps the rows in step with the log. -/
theorem RowsMatch.after (owned : event.owner = owner) :
    RowsMatch owner (projectEscalation rows event) (state.after event) := by
  cases payload : event.payload with
  | escalationRaised escalation =>
    exact rowsMatch.raise owned payload
  | escalationResolved closed stepId resolution resolvedBy modifiedContext =>
    have closing := rowsMatch.close closed
      (fun row => { row with
        status := .resolved, resolution := resolution, resolvedBy := resolvedBy,
        resolvedAt := event.occurredAt })
      (fun _ => ⟨rfl, rfl, rfl, rfl, by simp⟩)
    unfold projectEscalation State.after
    rw [payload]
    exact closing
  | escalationTimedOut closed stepId autoAction =>
    have closing := rowsMatch.close closed
      (fun row => { row with
        status := .timedOut, resolution := autoAction, resolvedBy := "auto",
        resolvedAt := event.occurredAt })
      (fun _ => ⟨rfl, rfl, rfl, rfl, by simp⟩)
    unfold projectEscalation State.after
    rw [payload]
    exact closing
  | workflowRequeued stepId =>
    unfold projectEscalation State.after
    rw [payload]
    cases stepId <;> exact rowsMatch
  | _ =>
    unfold projectEscalation State.after
    rw [payload]
    exact rowsMatch

theorem RowsMatch.afterAll {events : List Event} (owned : ∀ event ∈ events, event.owner = owner) :
    RowsMatch owner (projectEscalations rows events) (state.afterAll events) := by
  induction events generalizing rows state with
  | nil => exact rowsMatch
  | cons event rest ih =>
    exact ih (rowsMatch.after (owned event List.mem_cons_self))
      fun other member => owned other (List.mem_cons_of_mem _ member)

end Rows

section Ids

variable {state : State} {event : Event} {ref : EscalationRef}

private theorem escalationId_of_after (member : ref ∈ (state.after event).escalations) :
    (∃ old ∈ state.escalations, old.escalationId = ref.escalationId) ∨
      ∃ escalation, event.payload = .escalationRaised escalation ∧
        escalation.escalationId = ref.escalationId := by
  have closing {closed : String} (member : ref ∈ (state.closeEscalation closed).escalations) :
      ∃ old ∈ state.escalations, old.escalationId = ref.escalationId := by
    obtain ⟨old, oldMember, rfl⟩ := List.mem_map.mp member
    refine ⟨old, oldMember, ?_⟩
    split <;> rfl
  change ref ∈ (state.advance event.payload).escalations at member
  cases payload : event.payload with
  | escalationRaised escalation =>
    rw [payload] at member
    rcases List.mem_append.mp member with old | new
    · exact .inl ⟨ref, old, rfl⟩
    · rw [List.mem_singleton] at new
      exact .inr ⟨escalation, rfl, by rw [new]⟩
  | escalationResolved | escalationTimedOut =>
    rw [payload] at member
    exact .inl (closing member)
  | workflowRequeued stepId =>
    rw [payload] at member
    cases stepId <;> exact .inl ⟨ref, member, rfl⟩
  | _ =>
    rw [payload] at member
    exact .inl ⟨ref, member, rfl⟩

/-- Every escalation was there before a batch or is raised in it. -/
theorem escalationId_of_afterAll {events : List Event}
    (member : ref ∈ (state.afterAll events).escalations) :
    (∃ old ∈ state.escalations, old.escalationId = ref.escalationId) ∨
      ∃ event ∈ events, ∃ escalation, event.payload = .escalationRaised escalation ∧
        escalation.escalationId = ref.escalationId := by
  induction events generalizing state with
  | nil => exact .inl ⟨ref, member, rfl⟩
  | cons event rest ih =>
    rcases ih member with ⟨middle, middleMember, same⟩ | ⟨later, laterMember, raised⟩
    · rcases escalationId_of_after middleMember with ⟨old, oldMember, same'⟩ | raised
      · exact .inl ⟨old, oldMember, same'.trans same⟩
      · obtain ⟨escalation, payload, same'⟩ := raised
        exact .inr ⟨event, List.mem_cons_self, escalation, payload, same'.trans same⟩
    · exact .inr ⟨later, List.mem_cons_of_mem _ laterMember, raised⟩

end Ids

/-! ## Consistency -/

structure Consistent (setting : Setting) (world : World) : Prop where
  folds : ∃ inst, fold world.log (some setting.definition) = .ok inst ∧
    inst.owner = setting.owner
  run : Run (rulesOf setting) world.log
  rest : AtRest (rulesOf setting) world.log
  issued : ∀ ref ∈ (replay world.log).escalations, ref.escalationId ∈ world.issued
  rows : RowsMatch setting.owner world.escalations (replay world.log)
  deadLetters : ∀ row ∈ world.deadLetters, ∃ stepId, row.stepId = some stepId ∧
    stepId ∈ setting.definition.stepIds ∧ (replay world.log).Started stepId
  attempts : ¬ (rulesOf setting).requeues → ∀ record ∈ world.attempts,
    record.attempt ≤ ((replay world.log).steps record.stepId).attempts
  positions : ∀ record ∈ world.modelCalls, record.position ≤ world.log.length

/-- An identifier that was never given out belongs to no escalation. -/
theorem Consistent.fresh {setting : Setting} {world : World} {escalationId : String}
    (consistent : Consistent setting world) (unissued : escalationId ∉ world.issued) :
    (replay world.log).Fresh escalationId := by
  intro listed
  obtain ⟨ref, member, same⟩ := List.mem_map.mp listed
  exact unissued (same ▸ consistent.issued ref member)

/-- What a writer makes sure of before it appends a batch at the current
version. -/
structure Sound (setting : Setting) (world : World) (batch : List Event) : Prop where
  legal : LegalBatch (rulesOf setting) (replay world.log) batch
  rest : (replay world.log).AcceptsAll batch → AtRest (rulesOf setting) (world.log ++ batch)
  issued : ∀ event ∈ batch, ∀ escalation, event.payload = .escalationRaised escalation →
    escalation.escalationId ∈ world.issued

section Commit

variable {setting : Setting} {world next : World} {instanceId tenantId : String}
  {drafts : List Event} {expectedVersion : Nat}

/-- Committing a sound batch keeps a world consistent. -/
theorem Consistent.commit (consistent : Consistent setting world)
    (committed : world.commit setting instanceId tenantId drafts expectedVersion = .ok next)
    (sound : Sound setting world (resequence expectedVersion drafts)) :
    Consistent setting next := by
  obtain ⟨_, _, owned, nonempty, ⟨bare, bareOk⟩, rfl⟩ := commit_eq_ok committed
  generalize resequence expectedVersion drafts = events at *
  obtain ⟨inst, folded, instOwner⟩ := consistent.folds
  obtain ⟨full, fullOk, _⟩ := (fold_agree (some setting.definition) _).ok_right bareOk
  have tail := (fold_append folded).mp fullOk
  have accepted : (replay world.log).AcceptsAll events := by
    have batch : (view world.log inst).AcceptsAll events ∧ _ := view_of_fold_batch tail
    rw [view_of_fold folded] at batch
    exact batch.1
  have grown : world.log.length ≤ (world.log ++ events).length := by simp
  constructor
  case folds => exact ⟨full, fullOk, (owner_of_fold_base tail).trans instOwner⟩
  case run => exact consistent.run.batch sound.legal accepted
  case rest => exact sound.rest accepted
  case issued =>
    intro ref member
    rw [replay_append] at member
    rcases escalationId_of_afterAll member with
      ⟨old, oldMember, same⟩ | ⟨event, eventMember, escalation, payload, same⟩
    · rw [← same]
      exact consistent.issued old oldMember
    · rw [← same]
      exact sound.issued event eventMember escalation payload
  case rows =>
    rw [replay_append]
    exact consistent.rows.afterAll owned
  case deadLetters =>
    intro row member
    obtain ⟨stepId, named, known, started⟩ := consistent.deadLetters row member
    exact ⟨stepId, named, known, started.append events⟩
  case attempts =>
    intro noRequeue record member
    rw [replay_append]
    exact (consistent.attempts noRequeue record member).trans
      (sound.legal.attempts_le accepted noRequeue record.stepId)
  case positions =>
    intro record member
    exact (consistent.positions record member).trans grown

end Commit

end AgentForge.Refinement
