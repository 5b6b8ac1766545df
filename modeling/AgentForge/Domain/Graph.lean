import AgentForge.Library.Outcome
import Mathlib.Data.List.Sort
import Mathlib.Data.String.Basic

/-!
# Dependency graphs

Validation and layering of step dependencies: unknown and reflexive
dependencies are rejected first, then Kahn's algorithm peels off the steps all
of whose dependencies are resolved.  A round that peels nothing reports the
remaining steps as a cycle.
-/

namespace AgentForge.Domain

open Library

/-- Errors of definition validation, with what their messages name. -/
inductive DefinitionError
  | dependsOnItself (stepId : String)
  | dependsOnUnknown (stepId dependency : String)
  | cyclic (remaining : List String)
  | duplicateStepIds (stepIds : List String)
  | compensationWithoutSideEffects (stepId : String)
  | invalidField (field : String)
  deriving DecidableEq, Repr

/-- Steps of a mapping with their dependency lists, in insertion order. -/
abbrev Dependencies := List (String × List String)

/-- The first dependency that is reflexive or names no step. -/
def checkKnown (known : List String) (dependencies : Dependencies) :
    Except DefinitionError Unit :=
  dependencies.forM fun entry =>
    entry.2.forM fun dependency =>
      if dependency = entry.1 then throw (.dependsOnItself entry.1)
      else if dependency ∉ known then throw (.dependsOnUnknown entry.1 dependency)
      else pure ()

/-- Steps whose dependencies are all resolved, sorted. -/
def readyLayer (remaining : Dependencies) (resolved : List String) : List String :=
  ((remaining.filter fun entry => entry.2.all (· ∈ resolved)).map Prod.fst).insertionSort (· ≤ ·)

/-- The loop of `topological_layers`; every round removes at least one step, so
`fuel` rounds are enough for `fuel` remaining steps. -/
def layersFrom : Nat → Dependencies → List String → Except DefinitionError (List (List String))
  | _, [], _ => pure []
  | 0, remaining, _ => throw (.cyclic ((remaining.map Prod.fst).insertionSort (· ≤ ·)))
  | fuel + 1, remaining, resolved => do
      let ready := readyLayer remaining resolved
      if ready = [] then
        throw (.cyclic ((remaining.map Prod.fst).insertionSort (· ≤ ·)))
      let layers ← layersFrom fuel (remaining.filter fun entry => entry.1 ∉ ready)
        (resolved ++ ready)
      pure (ready :: layers)

def topologicalLayers (dependencies : Dependencies) :
    Except DefinitionError (List (List String)) :=
  layersFrom dependencies.length dependencies []

def validateDependencies (dependencies : Dependencies) : Except DefinitionError Unit := do
  checkKnown (dependencies.map Prod.fst) dependencies
  let _ ← topologicalLayers dependencies
  pure ()

private theorem forM_eq_ok {α : Type} {check : α → Except DefinitionError Unit}
    {elements : List α} :
    elements.forM check = .ok () ↔ ∀ element ∈ elements, check element = .ok () := by
  induction elements with
  | nil => simp [List.forM, pure, Except.pure]
  | cons first rest ih =>
    change (check first >>= fun _ => rest.forM check) = .ok () ↔ _
    rw [bind_eq_ok, List.forall_mem_cons, ← ih]
    constructor
    · rintro ⟨_, firstOk, restOk⟩
      exact ⟨firstOk, restOk⟩
    · rintro ⟨firstOk, restOk⟩
      exact ⟨(), firstOk, restOk⟩

variable {dependencies : Dependencies} {remaining : Dependencies} {resolved : List String}

theorem checkKnown_eq_ok {known : List String} : checkKnown known dependencies = .ok () ↔
      ∀ entry ∈ dependencies, ∀ dependency ∈ entry.2,
        dependency ≠ entry.1 ∧ dependency ∈ known := by
  unfold checkKnown
  rw [forM_eq_ok]
  refine forall₂_congr fun entry _ => ?_
  rw [forM_eq_ok]
  refine forall₂_congr fun dependency _ => ?_
  by_cases itself : dependency = entry.1
  · simp [itself, throw, throwThe, MonadExceptOf.throw]
  · by_cases unknown : dependency ∈ known
    · simp [itself, unknown, pure, Except.pure]
    · simp [itself, unknown, throw, throwThe, MonadExceptOf.throw]

theorem validateDependencies_eq_ok : validateDependencies dependencies = .ok () ↔
      checkKnown (dependencies.map Prod.fst) dependencies = .ok () ∧
        ∃ layers, topologicalLayers dependencies = .ok layers := by
  unfold validateDependencies
  rw [bind_eq_ok]
  constructor
  · rintro ⟨_, known, layered⟩
    obtain ⟨layers, layered, _⟩ := bind_eq_ok.mp layered
    exact ⟨known, layers, layered⟩
  · rintro ⟨known, layers, layered⟩
    exact ⟨(), known, bind_eq_ok.mpr ⟨layers, layered, rfl⟩⟩

/-- Dependencies that pass validation name other steps of the mapping. -/
theorem dependency_known_of_validate (valid : validateDependencies dependencies = .ok ())
    {stepId dependency : String} {listed : List String} (entry : (stepId, listed) ∈ dependencies)
    (member : dependency ∈ listed) : dependency ≠ stepId ∧ dependency ∈ dependencies.map Prod.fst :=
  checkKnown_eq_ok.mp (validateDependencies_eq_ok.mp valid).1 (stepId, listed) entry dependency
    member

private theorem mem_readyLayer {stepId : String} (ready : stepId ∈ readyLayer remaining resolved) :
    ∃ entry ∈ remaining, entry.1 = stepId ∧ ∀ dependency ∈ entry.2, dependency ∈ resolved := by
  unfold readyLayer at ready
  rw [List.mem_insertionSort, List.mem_map] at ready
  obtain ⟨entry, listed, same⟩ := ready
  simp only [List.mem_filter, List.all_eq_true, decide_eq_true_eq] at listed
  exact ⟨entry, listed.1, same, listed.2⟩

/-- What is settled as soon as the dependencies are settled is settled for all
the steps that are peeled off. -/
private theorem settled_of_layersFrom {settled : String → Prop} {fuel : Nat}
    {layers : List (List String)}
    (closed : ∀ entry ∈ remaining, (∀ dependency ∈ entry.2, settled dependency) → settled entry.1)
    (peeled : layersFrom fuel remaining resolved = .ok layers)
    (before : ∀ stepId ∈ resolved, settled stepId) : ∀ entry ∈ remaining, settled entry.1 := by
  induction fuel generalizing remaining resolved layers with
  | zero =>
    cases remaining with
    | nil => simp
    | cons first rest => cases peeled
  | succ fuel ih =>
    have ready : ∀ stepId ∈ readyLayer remaining resolved, settled stepId := by
      intro stepId isReady
      obtain ⟨entry, listed, rfl, known⟩ := mem_readyLayer isReady
      exact closed entry listed fun dependency member => before dependency (known _ member)
    cases remaining with
    | nil => simp
    | cons first rest =>
      unfold layersFrom at peeled
      by_cases none : readyLayer (first :: rest) resolved = []
      · simp [none, throw, throwThe, MonadExceptOf.throw, bind, Except.bind] at peeled
      · simp only [none, if_false] at peeled
        obtain ⟨_, later, _⟩ := bind_eq_ok.mp peeled
        intro entry listed
        by_cases isReady : entry.1 ∈ readyLayer (first :: rest) resolved
        · exact ready _ isReady
        · refine ih (fun other member => closed other (List.mem_of_mem_filter member)) later
            ?_ entry (List.mem_filter.mpr ⟨listed, by simpa using isReady⟩)
          intro stepId member
          exact (List.mem_append.mp member).elim (before stepId) (ready stepId)

/-- In validated dependencies, some unsettled step has only settled
dependencies. -/
theorem exists_first_of_validate (valid : validateDependencies dependencies = .ok ())
    (settled : String → Prop) (unsettled : ∃ entry ∈ dependencies, ¬ settled entry.1) :
    ∃ entry ∈ dependencies, ¬ settled entry.1 ∧ ∀ dependency ∈ entry.2, settled dependency := by
  by_contra none
  obtain ⟨_, layers, peeled⟩ := validateDependencies_eq_ok.mp valid
  have closed : ∀ entry ∈ dependencies,
      (∀ dependency ∈ entry.2, settled dependency) → settled entry.1 := by
    intro entry listed known
    by_contra isOpen
    exact none ⟨entry, listed, isOpen, known⟩
  obtain ⟨entry, listed, isOpen⟩ := unsettled
  exact isOpen (settled_of_layersFrom closed peeled (by simp) entry listed)

end AgentForge.Domain
