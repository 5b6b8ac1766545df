import AgentForge.Domain.Graph
import AgentForge.Domain.Status
import Mathlib.Data.Rat.Defs
import Mathlib.Algebra.Order.Ring.Unbundled.Rat

/-!
# Workflow definitions

The immutable template an instance executes.  A definition carries the proof
that the validator accepted it, so duplicate or empty step identifiers and
dangling dependencies cannot occur.  Seconds and amounts of money are exact
rationals.
-/

namespace AgentForge.Domain

open Library

/-- Truth value of an optional text: absent and empty texts are false. -/
def truthy : Option String → Bool
  | some text => text ≠ ""
  | none => false

structure RetryPolicy where
  maxRetries : Nat := 3
  backoffBaseSeconds : Rat := 1
  backoffMultiplier : Rat := 2
  backoffMaxSeconds : Rat := 60

/-- Backoff before the retry that follows attempt `attempt` (counted from 1). -/
def RetryPolicy.backoffDelay (policy : RetryPolicy) (attempt : Nat) : Rat :=
  min (policy.backoffBaseSeconds * policy.backoffMultiplier ^ (attempt - 1))
    policy.backoffMaxSeconds

/-- What happens when nobody answers an approval in time. -/
inductive AutoAction
  | approve
  | skip
  | abort
  deriving DecidableEq, Repr

def AutoAction.value : AutoAction → String
  | .approve => "approve"
  | .skip => "skip"
  | .abort => "abort"

structure WorkflowStep where
  stepId : String
  agentType : String
  retryPolicy : RetryPolicy := {}
  timeoutSeconds : Nat := 300
  sideEffects : List String := []
  compensationAction : Option String := none
  requiresApproval : Bool := false
  approvalTimeoutSeconds : Option Nat := none
  approvalAutoAction : AutoAction := .abort
  dependencies : List String := []

/-- Characters of the pattern `[a-zA-Z0-9_.-]`. -/
def identifierChar (char : Char) : Bool :=
  ('a' ≤ char && char ≤ 'z') || ('A' ≤ char && char ≤ 'Z') || ('0' ≤ char && char ≤ '9') ||
    char == '_' || char == '.' || char == '-'

/-- The field constraints of a step that the engine's behaviour rests on. -/
def WorkflowStep.fieldsValid (step : WorkflowStep) : Bool :=
  step.stepId ≠ "" && step.stepId.toList.all identifierChar && step.stepId.length ≤ 128 &&
    step.retryPolicy.maxRetries ≤ 20 && 0 < step.timeoutSeconds &&
    step.timeoutSeconds ≤ 86400 && step.approvalTimeoutSeconds ≠ some 0

/-- Identifiers that occur more than once. -/
def duplicates (ids : List String) : List String :=
  ids.filter fun id => 1 < ids.count id

/-- `_validate_graph`. -/
def validateGraph (steps : List WorkflowStep) : Except DefinitionError Unit := do
  let ids := steps.map WorkflowStep.stepId
  if duplicates ids ≠ [] then
    throw (.duplicateStepIds ((duplicates ids).dedup.insertionSort (· ≤ ·)))
  validateDependencies (steps.map fun step => (step.stepId, step.dependencies))
  match steps.find? fun step => truthy step.compensationAction && step.sideEffects = [] with
  | some step => throw (.compensationWithoutSideEffects step.stepId)
  | none => pure ()

/-- Field constraints, then the graph check. -/
def validateDefinition (steps : List WorkflowStep) (maxConcurrentSteps : Nat) :
    Except DefinitionError Unit := do
  if steps = [] then throw (.invalidField "steps")
  match steps.find? fun step => !step.fieldsValid with
  | some step => throw (.invalidField step.stepId)
  | none => pure ()
  if maxConcurrentSteps < 1 ∨ 100 < maxConcurrentSteps then
    throw (.invalidField "max_concurrent_steps")
  validateGraph steps

structure WorkflowDefinition where
  workflowId : String
  version : String
  steps : List WorkflowStep
  maxConcurrentSteps : Nat := 5
  onFailure : OnFailure := .pause
  valid : validateDefinition steps maxConcurrentSteps = .ok ()

namespace WorkflowDefinition

/-- The step with a given identifier. -/
def step (definition : WorkflowDefinition) (stepId : String) : Option WorkflowStep :=
  definition.steps.find? fun step => step.stepId = stepId

def stepIds (definition : WorkflowDefinition) : List String :=
  definition.steps.map WorkflowStep.stepId

private theorem duplicates_eq_nil_iff {ids : List String} : duplicates ids = [] ↔ ids.Nodup := by
  rw [duplicates, List.filter_eq_nil_iff, List.nodup_iff_count_le_one]
  constructor
  · intro unique id
    by_cases member : id ∈ ids
    · simpa using unique id member
    · simp [List.count_eq_zero_of_not_mem member]
  · intro unique id _
    simpa using unique id

variable (definition : WorkflowDefinition) {step : WorkflowStep} {stepId : String}

/-- The checks a definition has passed, one by one. -/
private theorem checks :
    definition.steps ≠ [] ∧ (∀ step ∈ definition.steps, step.fieldsValid = true) ∧
      1 ≤ definition.maxConcurrentSteps ∧ validateGraph definition.steps = .ok () := by
  have valid := definition.valid
  unfold validateDefinition at valid
  by_cases empty : definition.steps = []
  · simp [empty, throw, throwThe, MonadExceptOf.throw, bind, Except.bind] at valid
  · refine ⟨empty, ?_⟩
    rw [if_neg empty] at valid
    cases invalid : definition.steps.find? fun step => !step.fieldsValid with
    | some step =>
      simp [invalid, throw, throwThe, MonadExceptOf.throw, bind, Except.bind] at valid
    | none =>
      rw [invalid] at valid
      constructor
      · intro step member
        simpa using List.find?_eq_none.mp invalid step member
      · by_cases range : definition.maxConcurrentSteps < 1 ∨ 100 < definition.maxConcurrentSteps
        · rw [if_pos range] at valid
          simp [throw, throwThe, MonadExceptOf.throw, bind, Except.bind] at valid
        · rw [if_neg range] at valid
          exact ⟨by omega, valid⟩

theorem one_le_maxConcurrentSteps : 1 ≤ definition.maxConcurrentSteps :=
  definition.checks.2.2.1

/-- Step identifiers are pairwise distinct. -/
theorem nodup_stepIds : definition.stepIds.Nodup := by
  have graph := definition.checks.2.2.2
  by_contra repeated
  have found : duplicates (definition.steps.map WorkflowStep.stepId) ≠ [] :=
    fun none => repeated (duplicates_eq_nil_iff.mp none)
  simp [validateGraph, found, throw, throwThe, MonadExceptOf.throw, bind, Except.bind] at graph

/-- No step has the empty identifier, which marks workflow-level escalations. -/
theorem stepId_ne_empty (member : stepId ∈ definition.stepIds) : stepId ≠ "" := by
  obtain ⟨step, stepMember, rfl⟩ := List.mem_map.mp member
  have fields := definition.checks.2.1 step stepMember
  simp only [WorkflowStep.fieldsValid, Bool.and_eq_true, decide_eq_true_eq] at fields
  exact fields.1.1.1.1.1.1

private theorem validDependencies :
    validateDependencies (definition.steps.map fun step => (step.stepId, step.dependencies)) =
      .ok () := by
  have graph := definition.checks.2.2.2
  have unique : ¬ duplicates (definition.steps.map WorkflowStep.stepId) ≠ [] := by
    have nodup := duplicates_eq_nil_iff.mpr definition.nodup_stepIds
    exact fun found => found nodup
  unfold validateGraph at graph
  simp only [if_neg unique] at graph
  obtain ⟨_, known, _⟩ := bind_eq_ok.mp graph
  exact known

/-- Dependencies are other steps of the definition. -/
theorem dependency_mem_stepIds (member : step ∈ definition.steps) {dependency : String}
    (listed : dependency ∈ step.dependencies) :
    dependency ≠ step.stepId ∧ dependency ∈ definition.stepIds := by
  have known := definition.validDependencies
  have entry : (step.stepId, step.dependencies) ∈
      definition.steps.map fun step => (step.stepId, step.dependencies) :=
    List.mem_map_of_mem (f := fun step : WorkflowStep => (step.stepId, step.dependencies)) member
  obtain ⟨different, named⟩ := dependency_known_of_validate known entry listed
  refine ⟨different, ?_⟩
  simpa [stepIds, List.map_map, Function.comp_def] using named

/-- The graph has no cycles: among the unsettled steps there is one whose
dependencies are settled. -/
theorem exists_first (settled : String → Prop)
    (unsettled : ∃ step ∈ definition.steps, ¬ settled step.stepId) :
    ∃ step ∈ definition.steps, ¬ settled step.stepId ∧
      ∀ dependency ∈ step.dependencies, settled dependency := by
  obtain ⟨entry, listed, isOpen, known⟩ :=
    exists_first_of_validate definition.validDependencies settled (by simpa using unsettled)
  obtain ⟨step, member, rfl⟩ := List.mem_map.mp listed
  exact ⟨step, member, isOpen, known⟩

/-- Looking a step up by its own identifier finds it. -/
theorem step_stepId (member : step ∈ definition.steps) :
    definition.step step.stepId = some step := by
  have nodup := definition.nodup_stepIds
  unfold stepIds at nodup
  unfold WorkflowDefinition.step
  generalize definition.steps = steps at member nodup
  induction steps with
  | nil => simp at member
  | cons first rest ih =>
    simp only [List.map_cons, List.nodup_cons] at nodup
    rcases List.mem_cons.mp member with rfl | tail
    · simp
    · have different : first.stepId ≠ step.stepId := by
        intro same
        apply nodup.1
        rw [same]
        exact List.mem_map_of_mem (f := WorkflowStep.stepId) tail
      rw [List.find?_cons_of_neg (by simpa using different)]
      exact ih tail nodup.2

theorem eq_of_stepId_eq {step other : WorkflowStep} (member : step ∈ definition.steps)
    (otherMember : other ∈ definition.steps) (same : step.stepId = other.stepId) :
    step = other := by
  have found := definition.step_stepId member
  rw [same, definition.step_stepId otherMember] at found
  exact (Option.some.inj found).symm

theorem step_eq_some (found : definition.step stepId = some step) :
    step ∈ definition.steps ∧ step.stepId = stepId := by
  constructor
  · exact List.mem_of_find?_eq_some found
  · simpa using List.find?_some found

end WorkflowDefinition

end AgentForge.Domain
