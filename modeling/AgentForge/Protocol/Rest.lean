import AgentForge.Library.History
import AgentForge.Protocol.Invariants

/-!
# Between batches

Some facts hold only between the batches of a log, not after each event: a
batch that compensates steps ends in a roll-back, a batch that raises
escalations ends with a parked workflow.
-/

namespace AgentForge.Protocol

open Domain Events Library

/-- The event raises an escalation. -/
def raises : Payload → Bool
  | .escalationRaised _ => true
  | _ => false

/-- The event closes this escalation of a step so that the workflow goes on. -/
def proceeds : Payload → String → Prop
  | .escalationResolved escalationId stepId resolution _ _, closed =>
      escalationId = closed ∧ stepId ≠ "" ∧ resolution ≠ .abort
  | .escalationTimedOut escalationId stepId autoAction, closed =>
      escalationId = closed ∧ stepId ≠ "" ∧ autoAction ≠ .abort
  | _, _ => False

/-- Whenever the workflow goes on after an escalation of a step, no other
escalation is unresolved. -/
def LoneClosings (log : List Event) : Prop :=
  EachAt (fun before event => ∀ closed, proceeds event.payload closed →
    ∀ ref ∈ (replay before).escalations, ref.resolved = false → ref.escalationId = closed) log

/-- Statuses in which an open escalation can wait or has become irrelevant. -/
def parks : WorkflowStatus → Bool
  | .waitingApproval | .failed | .completed | .rolledBack => true
  | _ => false

/-- What holds between batches. -/
structure AtRest (rules : Rules) (log : List Event) : Prop where
  compensated : ∀ stepId, ((replay log).steps stepId).status = .compensated →
    (replay log).status = .rolledBack
  parked : ¬ rules.operators → LoneClosings log →
    ∀ ref ∈ (replay log).escalations, ref.resolved = false → parks (replay log).status = true

section Events

variable {rules : Rules} {state : State} {event : Event}

private theorem eq_of_isTerminal {source target : WorkflowStatus}
    (terminal : source.isTerminal = true)
    (moved : source = target ∨ workflowTransitionAllowed source target = true) :
    target = source := by
  rcases moved with same | allowed
  · exact same.symm
  · simp [workflowTransitionAllowed_of_isTerminal terminal] at allowed

/-- No accepted event leads out of a terminal status. -/
theorem status_after_of_isTerminal (accepted : state.Accepts event.payload)
    (terminal : state.status.isTerminal = true) : (state.after event).status = state.status := by
  change (state.advance event.payload).status = state.status
  cases payload : event.payload with
  | instanceStatusChanged =>
    rw [payload] at accepted
    exact eq_of_isTerminal terminal accepted.2
  | instanceCompleted | instanceFailed =>
    rw [payload] at accepted
    exact eq_of_isTerminal terminal accepted
  | workflowRequeued stepId =>
    rw [payload] at accepted
    cases stepId <;> exact eq_of_isTerminal terminal accepted
  | escalationRaised escalation => exact state.status_raiseEscalation escalation
  | _ => rfl

theorem compensated_of_after {stepId : String}
    (legal : Legal rules state event.occurredAt event.payload)
    (plain : compensates event.payload = false)
    (found : ((state.after event).steps stepId).status = .compensated) :
    (state.steps stepId).status = .compensated := by
  have change := legal.stepChange_after stepId
  generalize (state.after event).steps stepId = next at change found
  cases change with
  | same => exact found
  | retryScheduled _ => exact found
  | compensated compensated _ => simp [plain] at compensated
  | released _ _ _ =>
    by_cases output : (state.steps stepId).output.isSome <;> simp [output] at found
  | _ => simp at found

/-- Without a raise there is no new unresolved escalation. -/
theorem unresolved_of_after {ref : EscalationRef} (plain : raises event.payload = false)
    (member : ref ∈ (state.after event).escalations) (unresolved : ref.resolved = false) :
    ref ∈ state.escalations := by
  have closing {escalationId : String}
      (member : ref ∈ (state.closeEscalation escalationId).escalations) :
      ref ∈ state.escalations := by
    obtain ⟨old, oldMember, rfl⟩ := List.mem_map.mp member
    by_cases same : old.escalationId = escalationId
    · simp [same] at unresolved
    · simpa [same] using oldMember
  change ref ∈ (state.advance event.payload).escalations at member
  cases payload : event.payload with
  | escalationRaised => simp [payload, raises] at plain
  | escalationResolved | escalationTimedOut =>
    rw [payload] at member
    exact closing member
  | workflowRequeued stepId =>
    rw [payload] at member
    cases stepId <;> exact member
  | _ =>
    rw [payload] at member
    exact member

end Events

/-! ## Batches that keep the workflow at rest -/

section Batches

variable {rules : Rules} {log batch : List Event}

private theorem compensated_of_afterAll {state : State}
    (rest : ∀ stepId, (state.steps stepId).status = .compensated → state.status = .rolledBack)
    (legal : LegalBatch rules state batch) (accepted : state.AcceptsAll batch)
    (plain : ∀ event ∈ batch, compensates event.payload = false) (stepId : String)
    (found : ((state.afterAll batch).steps stepId).status = .compensated) :
    (state.afterAll batch).status = .rolledBack := by
  induction batch generalizing state with
  | nil => exact rest stepId found
  | cons event events ih =>
    refine ih ?_ (legal.2 accepted.1) accepted.2
      (fun other member => plain other (List.mem_cons_of_mem _ member)) found
    intro other compensated
    have before := rest other
      (compensated_of_after legal.1 (plain event List.mem_cons_self) compensated)
    rw [status_after_of_isTerminal accepted.1 (by rw [before]; rfl), before]

theorem unresolved_of_afterAll {state : State} {ref : EscalationRef}
    (plain : ∀ event ∈ batch, raises event.payload = false)
    (member : ref ∈ (state.afterAll batch).escalations) (unresolved : ref.resolved = false) :
    ref ∈ state.escalations := by
  induction batch generalizing state with
  | nil => exact member
  | cons event events ih =>
    have after := ih (fun other member => plain other (List.mem_cons_of_mem _ member)) member
    exact unresolved_of_after (plain event List.mem_cons_self) after unresolved

variable (rest : AtRest rules log) (legal : LegalBatch rules (replay log) batch)
  (accepted : (replay log).AcceptsAll batch)

include rest legal accepted

/-- A batch that ends with a parked workflow. -/
theorem AtRest.parking (plain : ∀ event ∈ batch, compensates event.payload = false)
    (parked : parks (replay (log ++ batch)).status = true) : AtRest rules (log ++ batch) := by
  constructor
  · rw [replay_append]
    exact compensated_of_afterAll rest.compensated legal accepted plain
  · exact fun _ _ _ _ _ => parked

/-- A batch of an operator, who may let a workflow go on at any time. -/
theorem AtRest.operated (operators : rules.operators)
    (plain : ∀ event ∈ batch, compensates event.payload = false) : AtRest rules (log ++ batch) := by
  constructor
  · rw [replay_append]
    exact compensated_of_afterAll rest.compensated legal accepted plain
  · exact fun unattended => absurd operators unattended

/-- A batch that raises nothing and moves no parked workflow. -/
theorem AtRest.plain (plain : ∀ event ∈ batch, compensates event.payload = false)
    (quiet : ∀ event ∈ batch, raises event.payload = false)
    (still : parks (replay log).status = true →
      (replay (log ++ batch)).status = (replay log).status) : AtRest rules (log ++ batch) := by
  constructor
  · rw [replay_append]
    exact compensated_of_afterAll rest.compensated legal accepted plain
  · intro unattended lone ref member unresolved
    rw [replay_append] at member
    have parked := rest.parked unattended lone.of_append ref
      (unresolved_of_afterAll quiet member unresolved) unresolved
    rwa [still parked]

/-- A batch that closes an escalation and lets the workflow go on. -/
theorem AtRest.closing {event : Event} {events : List Event} {escalationId : String}
    (split : batch = event :: events) (plain : ∀ event ∈ batch, compensates event.payload = false)
    (quiet : ∀ event ∈ batch, raises event.payload = false)
    (closes : (((replay log).after event).escalations) =
      ((replay log).closeEscalation escalationId).escalations)
    (proceed : proceeds event.payload escalationId) : AtRest rules (log ++ batch) := by
  constructor
  · rw [replay_append]
    exact compensated_of_afterAll rest.compensated legal accepted plain
  · intro _ lone ref member unresolved
    subst split
    rw [replay_append] at member
    have after : ref ∈ ((replay log).after event).escalations :=
      unresolved_of_afterAll (fun other member => quiet other (List.mem_cons_of_mem _ member))
        member unresolved
    rw [closes] at after
    obtain ⟨old, oldMember, rfl⟩ := List.mem_map.mp after
    by_cases same : old.escalationId = escalationId
    · simp [same] at unresolved
    · rw [if_neg same] at unresolved
      exact absurd (lone log event events rfl escalationId proceed old oldMember unresolved) same

omit rest legal accepted in
/-- A batch that ends in a roll-back. -/
theorem AtRest.rolledBack (ended : (replay (log ++ batch)).status = .rolledBack) :
    AtRest rules (log ++ batch) := by
  constructor
  · exact fun _ _ => ended
  · intro _ _ _ _ _
    rw [ended]
    rfl

end Batches

end AgentForge.Protocol
