import AgentForge.Engine.Entries
import AgentForge.Refinement.Turns

/-!
# The alarms that appends set

Every append writes the time at which the instance is to be looked at again, or
clears it.  Only the batch that parks a running workflow sets an alarm: no step
is running then, every failed step has a retry that is not due yet, and the
alarm is the earliest of them.  Every other batch clears it and does not leave
the workflow parked.
-/

namespace AgentForge.Refinement

open Domain Events Library Engine Protocol Store
open Program

/-! ## Events that park the workflow -/

/-- An event that does not park the workflow leaves it parked only if it leaves
the status alone. -/
theorem not_retrying_after {state : State} {event : Event} (awake : sleeps event.payload = false)
    (changes : state.status ≠ .retrying ∨ ¬ leavesStatus event.payload) :
    (state.after event).status ≠ .retrying := by
  by_cases leaves : leavesStatus event.payload
  · rw [status_after_of_leavesStatus leaves]
    exact changes.resolve_right (not_not_intro leaves)
  · change (state.advance event.payload).status ≠ .retrying
    cases payload : event.payload with
    | instanceStatusChanged source target reason =>
      rw [payload] at awake
      change target ≠ .retrying
      rintro rfl
      cases awake
    | instanceCompleted | instanceFailed => simp [State.advance]
    | workflowRequeued stepId => cases stepId <;> simp [State.advance, State.modifyStep]
    | _ =>
      rw [payload] at leaves
      exact absurd trivial leaves

theorem not_retrying_afterAll {state : State} {events : List Event}
    (awake : ∀ event ∈ events, sleeps event.payload = false)
    (changes : state.status ≠ .retrying ∨ ∃ event ∈ events, ¬ leavesStatus event.payload) :
    (state.afterAll events).status ≠ .retrying := by
  induction events generalizing state with
  | nil =>
    change state.status ≠ .retrying
    simpa using changes
  | cons event rest ih =>
    apply ih fun other member => awake other (List.mem_cons_of_mem _ member)
    have first := awake event List.mem_cons_self
    rcases changes with elsewhere | ⟨other, member, moves⟩
    · exact .inl (not_retrying_after first (.inl elsewhere))
    · rcases List.mem_cons.mp member with rfl | later
      · exact .inl (not_retrying_after first (.inr moves))
      · exact .inr ⟨other, later, moves⟩

/-! ## The right alarm -/

/-- Every failed step has a retry, and this is the time of the earliest one. -/
structure EarliestRetry (steps : String → StepView) (time : Time) : Prop where
  attained : ∃ stepId, (steps stepId).status = .failed ∧ (steps stepId).nextRetryAt = some time
  least : ∀ stepId, (steps stepId).status = .failed →
    ∃ retryAt, (steps stepId).nextRetryAt = some retryAt ∧ time ≤ retryAt

/-- The alarm that goes with a batch. -/
def Alarms (log : List Event) (payloads : List Payload) : Option Time → Prop
  | none => (∀ payload ∈ payloads, sleeps payload = false) ∧
      ((replay log).status ≠ .retrying ∨ ∃ payload ∈ payloads, ¬ leavesStatus payload)
  | some time => payloads = [.instanceStatusChanged .running .retrying none] ∧ Still log ∧
      EarliestRetry (replay log).steps time

/-- Appends to the log as it is set the alarm that goes with their batch. -/
def Alarmed (world : World) : Op → Prop
  | .appendNew _ _ drafts expectedVersion _ nextWakeupAt => expectedVersion = world.log.length →
      Alarms world.log (drafts.map Event.payload) nextWakeupAt
  | _ => True

/-! ## Code that sets no alarm -/

/-- Operations that append nothing. -/
def Unwritten : Op → Prop
  | .appendNew .. => False
  | _ => True

section Pieces

variable {α : Type} {config : Config} {definition : WorkflowDefinition} {inst : WorkflowInstance}
  {returns : α → Prop} {payloads : List Payload} {code : Code α} {reason : Option String}
  {drafts : List Event}

end Pieces

/-! ## In the world of the instance -/

section Worlds

variable {α : Type} {setting : Setting} {world next : World} {inst : WorkflowInstance}
  {sem : Semantics World Op Op.Result}
  (admitted : ∀ world op response next, sem world op response next →
    answers setting world op response next) {op : Op} {definition : WorkflowDefinition}
  {response : op.Result} {returns : α → Prop}

/-- Only appends change the log. -/
theorem log_of_unwritten (answered : answers setting world op response next)
    (unwritten : Unwritten op) : next.log = world.log := by
  cases logChange_of_answers answered with
  | same sameLog => exact sameLog
  | committed => exact unwritten.elim

private theorem alarmed_of_concludes {acting : Prop} (concludes : op.concludes acting) :
    Alarmed world op := by
  cases op with
  | appendNew =>
    obtain ⟨rfl, every, draft, member, moves⟩ := concludes
    refine fun _ => ⟨?_, .inr ⟨_, List.mem_map_of_mem member, moves⟩⟩
    exact List.forall_mem_map.mpr fun draft member => (every draft member).2
  | _ => trivial

include admitted

omit admitted in
theorem Concludes.alarmed {code : Code α} {acting : Prop} (concludes : Concludes acting code) :
    Safe sem Alarmed (fun _ _ => True) (fun _ _ => True) code world := by
  have kept (world : World) (op : Op) (_ : True) (concludes : op.concludes acting) :
      Alarmed world op ∧ ∀ response next, sem world op response next → True :=
    ⟨alarmed_of_concludes concludes, fun _ _ _ => trivial⟩
  exact (Yields.safe concludes kept (fun _ _ _ => trivial) trivial).imp fun _ _ _ => trivial

end Worlds

/-! ## The retries of a parked workflow -/

section Drives

variable {setting : Setting} {world next : World} {inst : WorkflowInstance} {config : Config}
  {lease : Lease}

theorem countSteps_of_still (holds : Holds setting world inst) (still : Still world.log) :
    inst.countSteps .running = 0 := by
  rw [WorkflowInstance.countSteps, List.countP_eq_zero]
  intro state member running
  obtain ⟨stepId, found⟩ := Dict.mem_values_iff.mp member
  apply still stepId
  rw [holds.steps, WorkflowInstance.stepOr_of_get? found]
  exact of_decide_eq_true running

variable (noRequeue : setting.NoRequeue) {actor : Actor} {plan : Plan}

include noRequeue

variable (atHead : AtHead setting noCare world inst)

include atHead

/-- What a drive can rely on. -/
private abbrev conducted (setting : Setting) : Semantics World Op Op.Result :=
  fun world op response next => answers setting world op response next ∧
    Conduct setting noCare world op

omit atHead

end Drives

end AgentForge.Refinement
