import AgentForge.Refinement.Consistency

/-!
# The conduct of the actors

What an actor is bound to at each of its operations, and what it may leave
undone when it is interrupted: a retry that is not scheduled yet, a review that
is not raised yet, a model call whose attempt is not recorded yet.
-/

namespace AgentForge.Refinement

open Domain Events Library Engine Protocol

/-! ## Debts -/

/-- The attempt that the event reports as failed, and whether it may be retried. -/
def failedAttempt : Payload → String → Option (Nat × Bool)
  | .stepFailed stepId attempt _ _ retryable, other =>
      if stepId = other then some (attempt, retryable) else none
  | _, _ => none

/-- The last failure of a step. -/
def lastFailure (log : List Event) (stepId : String) : Option (Nat × Bool) :=
  (log.filterMap fun event => failedAttempt event.payload stepId).getLast?

theorem lastFailure_append (log batch : List Event) (stepId : String) :
    lastFailure (log ++ batch) stepId =
      (batch.filterMap fun event => failedAttempt event.payload stepId).getLast?.or
        (lastFailure log stepId) := by
  unfold lastFailure
  rw [List.filterMap_append, List.getLast?_append]

theorem lastFailure_append_of_none {log batch : List Event} {stepId : String}
    (none : ∀ event ∈ batch, failedAttempt event.payload stepId = none) :
    lastFailure (log ++ batch) stepId = lastFailure log stepId := by
  have empty : (batch.filterMap fun event => failedAttempt event.payload stepId) = [] :=
    List.filterMap_eq_nil_iff.mpr none
  rw [lastFailure_append, empty]
  rfl

/-- A batch whose failures of a step all report the same. -/
theorem lastFailure_append_of_all {log batch : List Event} {stepId : String} {reported : Nat × Bool}
    (all : ∀ event ∈ batch, ∀ found, failedAttempt event.payload stepId = some found →
      found = reported)
    (exists_ : ∃ event ∈ batch, failedAttempt event.payload stepId = some reported) :
    lastFailure (log ++ batch) stepId = some reported := by
  rw [lastFailure_append]
  generalize found : (batch.filterMap fun event => failedAttempt event.payload stepId).getLast? =
    last
  cases last with
  | none =>
    obtain ⟨event, member, reports⟩ := exists_
    rw [List.getLast?_eq_none_iff, List.filterMap_eq_nil_iff] at found
    rw [found event member] at reports
    cases reports
  | some value =>
    obtain ⟨event, member, reports⟩ := List.mem_filterMap.mp (List.mem_of_getLast? found)
    rw [all event member value reports]
    rfl

/-- The last failure of the step was retryable and has left it a retry. -/
def RetryAllowed (definition : WorkflowDefinition) (log : List Event) (stepId : String) : Prop :=
  ∃ step ∈ definition.steps, step.stepId = stepId ∧
    ∃ attempt ≤ step.retryPolicy.maxRetries, lastFailure log stepId = some (attempt, true)

/-- The step has failed, it has a retry left and no retry is scheduled. -/
def RetryOwed (definition : WorkflowDefinition) (log : List Event) (stepId : String) : Prop :=
  ∃ inst, fold log (some definition) = .ok inst ∧ (inst.stepOr stepId).status = .failed ∧
    (inst.stepOr stepId).nextRetryAt = none ∧ RetryAllowed definition log stepId

/-- What is owed, in terms of the replayed log. -/
theorem retryOwed_iff {definition : WorkflowDefinition} {log : List Event}
    {inst : WorkflowInstance} (folded : fold log (some definition) = .ok inst) (stepId : String) :
    RetryOwed definition log stepId ↔ ((replay log).steps stepId).status = .failed ∧
      ((replay log).steps stepId).nextRetryAt = none ∧ RetryAllowed definition log stepId := by
  have steps : (replay log).steps stepId = .of (inst.stepOr stepId) := by
    rw [← view_of_fold folded]
    rfl
  rw [steps]
  constructor
  · rintro ⟨other, otherFolded, owed⟩
    rw [folded] at otherFolded
    cases otherFolded
    exact owed
  · exact fun owed => ⟨inst, folded, owed⟩

/-- The event completes this attempt of the step. -/
def completesAttempt (stepId : String) (attempt : Nat) (event : Event) : Prop :=
  ∃ output modelUsed, event.payload = .stepCompleted stepId attempt output modelUsed

/-- The event raises this escalation of the step. -/
def raisesFor (stepId escalationId : String) (event : Event) : Prop :=
  ∃ escalation, event.payload = .escalationRaised escalation ∧ escalation.stepId = stepId ∧
    escalation.escalationId = escalationId

/-- An attempt has asked for a review and is completed, but the review has not
been raised. -/
def ReviewOwed (world : World) : Prop :=
  ∃ record ∈ world.attempts, record.outcome.review.isSome = true ∧
    (∃ event ∈ world.log, completesAttempt record.stepId record.attempt event) ∧
      ¬ ∃ escalationId, InOrder [completesAttempt record.stepId record.attempt,
        raisesFor record.stepId escalationId] world.log

/-- A model call was answered after the last append, so nothing in the log tells
of it. -/
def CallOwed (world : World) : Prop :=
  ∃ record ∈ world.modelCalls, record.position = world.log.length

/-- Which kinds of debt no interrupted actor leaves behind, and whether charges can
be told from the model calls. -/
structure Care where
  retries : Prop
  reviews : Prop
  calls : Prop
  /-- The runners leave the charging to their model calls. -/
  charges : Prop

/-- No debt of the given kinds. -/
structure Tidy (setting : Setting) (care : Care) (world : World) : Prop where
  retries : care.retries → ∀ stepId, ¬ RetryOwed setting.definition world.log stepId
  reviews : care.reviews → ¬ ReviewOwed world
  calls : care.calls → ¬ CallOwed world

/-! ## Conduct -/

/-- Events that a pending review has to hold back. -/
def gated : Payload → Bool
  | .stepStarted _ _ _ _ => true
  | .instanceStatusChanged _ .completed _ => true
  | _ => false

/-- The event ends an attempt of the step. -/
def endsAttempt : Payload → String → Prop
  | .stepCompleted stepId _ _ _, other => stepId = other
  | .stepFailed stepId _ _ _ _, other => stepId = other
  | _, _ => False

/-- The batch tells how the calls since the last append have ended. -/
def Reports (world : World) (batch : List Event) : Prop :=
  ∀ record ∈ world.modelCalls, record.position = world.log.length →
    ∃ event ∈ batch, endsAttempt event.payload record.call.stepId

/-- How many model calls of the step were answered since the last append. -/
def freshCalls (world : World) (stepId : String) : Nat :=
  world.modelCalls.countP fun record =>
    record.position = world.log.length ∧ record.call.stepId = stepId

/-- The batch charges no more calls of a step than were answered since the last
append. -/
def Billed (world : World) (batch : List Event) : Prop :=
  ∀ stepId, batch.countP (fun event => bills event.payload stepId) ≤ freshCalls world stepId

/-- The batch reports no end of an attempt. -/
def NoEndings (batch : List Event) : Prop :=
  ∀ event ∈ batch, ends event.payload = false

/-- A sound batch that respects the debts of the world. -/
structure Proper (setting : Setting) (care : Care) (world : World) (batch : List Event) :
    Prop where
  sound : Sound setting world batch
  held : Tidy setting care world ∧ NoEndings batch ∨ ∀ event ∈ batch, gated event.payload = false
  reports : care.calls → Reports world batch
  billed : care.charges → Billed world batch

/-- The step is running this attempt. -/
def Running (world : World) (stepId : String) (attempt : Nat) : Prop :=
  ((replay world.log).steps stepId).status = .running ∧
    ((replay world.log).steps stepId).attempts = attempt

/-- What an actor is bound to at an operation. -/
def Conduct (setting : Setting) (care : Care) (world : World) (op : Op) : Prop :=
  Consistent setting world ∧
    match op with
    | .appendNew _ _ drafts expectedVersion _ _ => expectedVersion = world.log.length →
        Proper setting care world (resequence expectedVersion drafts)
    | .completeLLM call _ _ => Running world call.stepId call.attempt ∧
        ∀ record ∈ world.modelCalls, record.position = world.log.length →
          record.call.stepId = call.stepId → record.call.index < call.index
    | .mark (.attemptFinished stepId attempt _) => Running world stepId attempt
    | .mark (.policyApplied stepId) => Tidy setting care world ∧
        ((replay world.log).steps stepId).status = .failed ∧
        ((replay world.log).steps stepId).nextRetryAt = none
    | .recordDeadLetter row => ∃ stepId, row.stepId = some stepId ∧
        stepId ∈ setting.definition.stepIds ∧ (replay world.log).Started stepId
    | _ => True

/-- Code that keeps to the conduct, with conditions on what it raises and
returns. -/
abbrev KeepsOr {α : Type} (setting : Setting) (care : Care) (error : Exn → World → Prop)
    (post : α → World → Prop) (code : Code α) (world : World) : Prop :=
  Program.Safe (answers setting) (Conduct setting care) post error code world

/-- Code that keeps to the conduct, with a condition on what it returns; if it
raises, the world is consistent. -/
abbrev Keeps {α : Type} (setting : Setting) (care : Care) (post : α → World → Prop)
    (code : Code α) (world : World) : Prop :=
  KeepsOr setting care (fun _ world => Consistent setting world) post code world

/-! ## Operations that leave the journal alone -/

/-- Only the clock and the identifiers have moved. -/
def Idle (setting : Setting) (world next : World) : Prop :=
  ∃ clock issued, next = { world with clock := clock, issued := issued } ∧
    (setting.monotoneClock → world.clock ≤ clock) ∧ ∀ id ∈ world.issued, id ∈ issued

section Idle

variable {setting : Setting} {care : Care} {world next final : World} {error : Exn → World → Prop}

theorem Idle.refl (setting : Setting) (world : World) : Idle setting world world :=
  ⟨world.clock, world.issued, rfl, fun _ => le_rfl, fun _ member => member⟩

theorem Idle.trans (first : Idle setting world next) (second : Idle setting next final) :
    Idle setting world final := by
  obtain ⟨clock, issued, rfl, later, more⟩ := first
  obtain ⟨clock', issued', rfl, later', more'⟩ := second
  exact ⟨clock', issued', rfl, fun monotone => (later monotone).trans (later' monotone),
    fun id member => more' id (more id member)⟩

theorem Idle.log (idle : Idle setting world next) : next.log = world.log := by
  obtain ⟨_, _, rfl, _, _⟩ := idle
  rfl

theorem Idle.clock_le (idle : Idle setting world next) :
    setting.monotoneClock → world.clock ≤ next.clock := by
  obtain ⟨_, _, rfl, later, _⟩ := idle
  exact later

theorem Idle.issued_subset (idle : Idle setting world next) :
    ∀ id ∈ world.issued, id ∈ next.issued := by
  obtain ⟨_, _, rfl, _, more⟩ := idle
  exact more

theorem Consistent.idle (consistent : Consistent setting world)
    (idle : Idle setting world next) : Consistent setting next := by
  obtain ⟨clock, issued, rfl, _, more⟩ := idle
  exact { consistent with issued := fun ref member => more _ (consistent.issued ref member) }

theorem Tidy.idle (tidy : Tidy setting care world) (idle : Idle setting world next) :
    Tidy setting care next := by
  obtain ⟨clock, issued, rfl, _, _⟩ := idle
  exact ⟨tidy.retries, tidy.reviews, tidy.calls⟩

theorem keeps_now (consistent : Consistent setting world) : Keeps setting care
      (fun time next => Idle setting world next ∧ next.clock = time ∧
        (setting.monotoneClock → world.clock ≤ time)) Code.now world := by
  refine ⟨⟨consistent, trivial⟩, ?_⟩
  rintro time next ⟨later, rfl⟩
  exact ⟨⟨time, world.issued, rfl, later, fun _ member => member⟩, rfl, later⟩

theorem keeps_newId (consistent : Consistent setting world) : Keeps setting care
      (fun id next => Idle setting world next ∧ id ∉ world.issued ∧ id ∈ next.issued)
      Code.newId world := by
  refine ⟨⟨consistent, trivial⟩, ?_⟩
  rintro id next ⟨fresh, rfl⟩
  exact ⟨⟨world.clock, id :: world.issued, rfl, fun _ => le_rfl,
    fun _ member => List.mem_cons_of_mem _ member⟩, fresh, List.mem_cons_self⟩

/-- Raising what a fallible computation raises. -/
theorem keeps_lift {α : Type} {post : α → World → Prop} {result : Except Exn α}
    (fails : ∀ failure, error failure world)
    (succeeds : ∀ value, result = .ok value → post value world) :
    KeepsOr setting care error post (lift result) world := by
  cases result with
  | ok value => exact succeeds value rfl
  | error failure => exact fails failure

/-- Going on with the value of a fallible computation. -/
theorem keeps_lift_bind {α β : Type} {post : β → World → Prop} {result : Except Exn α}
    {rest : α → Code β} (fails : ∀ failure, error failure world)
    (succeeds : ∀ value, result = .ok value → KeepsOr setting care error post (rest value) world) :
    KeepsOr setting care error post (lift result >>= rest) world := by
  cases result with
  | ok value => exact succeeds value rfl
  | error failure => exact fails failure

end Idle

end AgentForge.Refinement
