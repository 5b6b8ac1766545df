import AgentForge.Guarantees.Journal
import AgentForge.Refinement.Concurrent

/-!
# Skipped steps

A step is skipped by the resolution or the expiry of its escalation, which only
moves its status: an output that is recorded by then stays, and the steps that
depend on it still get it.  Where no recorded output is skipped, the dependents
of every skipped step get an empty input.
-/

namespace AgentForge.Guarantees

open Domain Events Library Engine Protocol Refinement Store

/-! ## Inputs -/

/-- The input that a step gets from a dependency is its recorded output. -/
theorem get?_resolveInputs (inst : WorkflowInstance) {step : WorkflowStep} {dependency : String}
    (depends : dependency ∈ step.dependencies) : (resolveInputs inst step).get? dependency =
      some (JsonDict.toJson
        (((inst.stepStates.get? dependency).bind StepState.output).getD Dict.empty)) := by
  unfold resolveInputs
  generalize step.dependencies = dependencies at depends
  induction dependencies using List.reverseRecOn with
  | nil => cases depends
  | append_singleton rest last ih =>
    rw [List.foldl_append, List.foldl_cons, List.foldl_nil]
    by_cases same : dependency = last
    · subst same
      rw [Dict.get?_set_self]
    · rw [Dict.get?_set_ne _ same]
      apply ih
      simpa [same] using depends

/-! ## Skipping events -/

/-- The event skips the step. -/
def skipsStep : Payload → String → Prop
  | .stepStatusChanged skipped _ .skipped _, stepId => skipped = stepId
  | .stepSkipped skipped _, stepId => skipped = stepId
  | _, _ => False

/-- The event records an output. -/
def recordsOutput : Payload → Prop
  | .stepCompleted .. => True
  | _ => False

/-- No output is recorded, or an empty one. -/
def outputless (step : StepView) : Prop :=
  step.output.getD Dict.empty = Dict.empty

/-- Every skipped step is without output. -/
def SkippedBare (state : State) : Prop :=
  ∀ stepId, (state.steps stepId).status = .skipped → outputless (state.steps stepId)

section Events

variable {state : State} {events : List Event} {event : Event}

/-- A step loses its place among the skipped ones, or keeps its output; it gets
there only by an event that skips it. -/
theorem step_after_cases (state : State) (event : Event) (stepId : String) :
    (recordsOutput event.payload ∧ ((state.after event).steps stepId).status = .completed) ∨
      ((state.after event).steps stepId).output = (state.steps stepId).output ∧
        (((state.after event).steps stepId).status = .skipped →
          (state.steps stepId).status = .skipped ∨ skipsStep event.payload stepId) := by
  change (_ ∧ ((state.advance event.payload).steps stepId).status = _) ∨
    ((state.advance event.payload).steps stepId).output = _ ∧
      (((state.advance event.payload).steps stepId).status = _ → _)
  cases payload : event.payload with
  | stepCompleted completed =>
    by_cases same : stepId = completed <;>
      simp +contextual [State.advance, State.modifyStep, recordsOutput, same]
  | workflowRequeued requeued =>
    cases requeued with
    | none => simp +contextual [State.advance]
    | some requeued =>
      by_cases same : stepId = requeued <;>
        simp +contextual [State.advance, State.modifyStep, same]
  | escalationRaised escalation =>
    by_cases workflowLevel : escalation.stepId = "" <;>
      by_cases same : stepId = escalation.stepId <;>
      simp +contextual [State.advance, State.raiseEscalation, State.modifyStep, workflowLevel,
        same]
  | stepStatusChanged changed source target =>
    by_cases same : stepId = changed
    · subst same
      cases target <;> simp [State.advance, State.modifyStep, skipsStep]
    · simp +contextual [State.advance, State.modifyStep, same]
  | stepStarted changed | stepFailed changed | stepRetryScheduled changed | stepSkipped changed
  | stepCompensated changed =>
    by_cases same : stepId = changed <;>
      simp +contextual [State.advance, State.modifyStep, skipsStep, same]
  | _ => simp +contextual [State.advance, State.closeEscalation]

theorem SkippedBare.after (bare : SkippedBare state)
    (empty : ∀ stepId, skipsStep event.payload stepId → outputless (state.steps stepId)) :
    SkippedBare (state.after event) := by
  intro stepId skipped
  rcases step_after_cases state event stepId with ⟨_, completed⟩ | ⟨output, origin⟩
  · rw [completed] at skipped
    cases skipped
  · unfold outputless
    rw [output]
    rcases origin skipped with before | skips
    · exact bare stepId before
    · exact empty stepId skips

theorem output_after (keeps : ¬ recordsOutput event.payload) (stepId : String) :
    ((state.after event).steps stepId).output = (state.steps stepId).output := by
  rcases step_after_cases state event stepId with ⟨records, _⟩ | ⟨output, _⟩
  · exact absurd records keeps
  · exact output

/-- A batch of events that skip no step. -/
theorem SkippedBare.afterAll_of_not_skips (bare : SkippedBare state)
    (none : ∀ event ∈ events, ∀ stepId, ¬ skipsStep event.payload stepId) :
    SkippedBare (state.afterAll events) := by
  induction events generalizing state with
  | nil => exact bare
  | cons event rest ih =>
    apply ih
    · apply bare.after
      intro stepId skips
      exact absurd skips (none event List.mem_cons_self stepId)
    · intro other member
      exact none other (List.mem_cons_of_mem _ member)

/-- A batch that records no output, and skips steps that have none. -/
theorem SkippedBare.afterAll_of_keeps (bare : SkippedBare state)
    (keeps : ∀ event ∈ events, ¬ recordsOutput event.payload)
    (empty : ∀ event ∈ events, ∀ stepId, skipsStep event.payload stepId →
      outputless (state.steps stepId)) : SkippedBare (state.afterAll events) := by
  induction events generalizing state with
  | nil => exact bare
  | cons event rest ih =>
    apply ih
    · exact bare.after (empty event List.mem_cons_self)
    · intro other member
      exact keeps other (List.mem_cons_of_mem _ member)
    · intro other member stepId skips
      unfold outputless
      rw [output_after (keeps event List.mem_cons_self)]
      exact empty other (List.mem_cons_of_mem _ member) stepId skips

end Events

/-! ## Who skips -/

variable {payload : Payload}

theorem not_skips_of_steers (steering : steers payload) (stepId : String) :
    ¬ skipsStep payload stepId := by
  intro skips
  cases payload with
  | stepStatusChanged _ _ target =>
    cases target with
    | skipped => cases steering.1
    | _ => exact skips
  | stepSkipped => exact steering
  | _ => exact skips

variable {inst : WorkflowInstance} {world : World}

/-- Closing an escalation records no output. -/
private theorem keeps_of_closes {row : EscalationRow}
    (member : (∃ request, payload ∈ resolvePayloads inst row request) ∨
      payload ∈ expiryPayloads inst row) : ¬ recordsOutput payload := by
  rcases member with ⟨request, member⟩ | member
  · exact @forall_mem_resolvePayloads (fun payload => ¬ recordsOutput payload) _ _
      (fun _ _ _ _ => id) (fun _ _ _ _ => id) _ (fun _ _ _ _ _ => id) (fun _ _ _ => id) payload
      member
  · exact @forall_mem_expiryPayloads (fun payload => ¬ recordsOutput payload) _ _
      (fun _ _ _ _ => id) (fun _ _ _ _ => id) (fun _ _ _ => id) payload member

/-- A batch of an actor skips no step or records no output. -/
theorem skips_or_records {actor : Actor} {payloads : List Payload}
    (appends : Appends actor inst payloads) :
    (∀ payload ∈ payloads, ∀ stepId, ¬ skipsStep payload stepId) ∨
      ∀ payload ∈ payloads, ¬ recordsOutput payload := by
  cases actor with
  | drive config lease => exact .inl fun payload member => not_skips_of_steers (appends.1 _ member)
  | pause | resume | abort =>
    obtain ⟨reason, rfl⟩ := appends.single
    exact .inl fun payload member _ => List.mem_singleton.mp member ▸ id
  | resolve request =>
    obtain ⟨_, row, rfl⟩ := appends
    exact .inr fun payload member => keeps_of_closes (.inl ⟨request, member⟩)
  | expireDue now limit =>
    obtain ⟨_, row, rfl⟩ := appends
    exact .inr fun payload member => keeps_of_closes (.inr member)
  | requeue dlqId requeuedBy =>
    obtain ⟨_, stepId, rfl⟩ := appends
    exact .inl fun payload member _ => List.mem_singleton.mp member ▸ id

/-- Whoever appends the skip of a step finds no output of it recorded. -/
def skipsOutputless : Condition :=
  fun _ world _ next => ∀ batch, next.log = world.log ++ batch →
    ∀ event ∈ batch, ∀ stepId, skipsStep event.payload stepId →
      outputless ((replay world.log).steps stepId)

theorem upholds_skippedBare (setting : Setting) :
    Upholds setting skipsOutputless fun world => SkippedBare (replay world.log) := by
  intro acting world op response next bare abreast based answered meets
  rcases log_or_committed abreast based.grounded answered with sameLog | ⟨batch, inst, committed⟩
  · rwa [sameLog]
  · have grown : next.log = world.log ++ batch := by rw [committed.next]
    rw [grown, replay_append]
    rcases skips_or_records committed.appends with none | keeps
    · exact bare.afterAll_of_not_skips (List.forall_mem_map.mp none)
    · refine bare.afterAll_of_keeps (fun event member => ?_) (meets batch grown)
      exact keeps event.payload (List.mem_map_of_mem member)

/-- Nothing is skipped before the first event. -/
theorem skippedBare_of_fresh {setting : Setting} (fresh : world.Fresh setting) :
    SkippedBare (replay world.log) := by
  obtain ⟨event, _, _, _, _, isGenesis, rfl⟩ := fresh
  obtain ⟨_, initial⟩ := replay_genesis isGenesis
  intro stepId skipped
  rw [initial] at skipped
  cases skipped

/-- When no step with a recorded output is ever skipped, the steps that depend
on a skipped step get an empty input from it. -/
theorem skipped_input_empty {setting : Setting} {pool : Actors}
    (reached : ReachedFrom setting skipsOutputless pool)
    {definition : Option WorkflowDefinition} {inst : WorkflowInstance}
    (folded : fold pool.world.log definition = .ok inst) {step : WorkflowStep}
    {dependency : String} {state : StepState} (depends : dependency ∈ step.dependencies)
    (stored : inst.stepStates.get? dependency = some state) (skipped : state.status = .skipped) :
    (resolveInputs inst step).get? dependency = some (JsonDict.toJson Dict.empty) := by
  obtain ⟨start, fresh, run⟩ := reached
  have bare : SkippedBare (replay pool.world.log) :=
    (InStep.run (upholds_skippedBare setting) (.start (skippedBare_of_fresh fresh)) run).holds.1
  have seen : (replay pool.world.log).steps dependency = .of state := by
    rw [← view_of_fold folded]
    simp [view, WorkflowInstance.stepOr, stored]
  have dropped := bare dependency (by rw [seen]; exact skipped)
  rw [seen] at dropped
  rw [get?_resolveInputs inst depends, stored]
  exact congrArg (fun output => some (JsonDict.toJson output)) dropped

/-! ### A flagged output and a held step -/

def publishStep : WorkflowStep where
  stepId := "publish"
  agentType := "publisher"
  dependencies := ["write"]

/-- A step that writes, and one that publishes what the first has written. -/
def draftWorkflow (gated : Bool) : WorkflowDefinition where
  workflowId := "drafts"
  version := "1.0.0"
  steps := [{ stepId := "write", agentType := "writer", requiresApproval := gated }, publishStep]
  valid := by cases gated <;> rfl

def draftSetting (gated : Bool) : Setting :=
  .simple (draftWorkflow gated) fun _ => True

/-- The writer asks for a review of its text; the publisher puts out its inputs. -/
def draftDrive : Actor :=
  .drive
    { registry := fun agentType => some fun ctx =>
        if agentType = "writer" then
          .perform (.requestReview {}) fun _ =>
            .done { output := Dict.ofList [("text", .str "draft")] }
        else
          .done { output := ctx.inputs }
      digestMessages := fun _ _ => "" }
    { instanceId := "instance", tenantId := "tenant", workflowId := "drafts",
      workflowVersion := "1.0.0", workerId := "worker" }

/-- An operator skips the step that was escalated first. -/
def skipFirst (world : World) : Actor :=
  .resolve
    { escalationId := world.escalationIds.headD "", tenantId := "tenant", resolution := .skip,
      resolvedBy := "operator" }

/-- The text of an input. -/
def textOf : Json → Option String
  | .obj entries =>
      match Dict.find "text" entries with
      | some (.str text) => some text
      | _ => none
  | _ => none

/-- The status of the first step, the text that its output hands to the second
one, and the text that the second one has put out. -/
def draftFacts (gated : Bool) (world : World) :
    Option (Option StepStatus × Option String × Option String) :=
  match fold world.log (some (draftWorkflow gated)) with
  | .ok inst => some
      ((inst.stepStates.get? "write").map StepState.status,
        ((resolveInputs inst publishStep).get? "write").bind textOf,
        (((inst.stepStates.get? "publish").bind StepState.output).bind
          (fun output => output.get? "write")).bind textOf)
  | .error _ => none

theorem exists_of_draftFacts {gated : Bool} {status : Option StepStatus}
    {input output : Option String} (facts : draftFacts gated world = some (status, input, output)) :
    ∃ inst, fold world.log (some (draftWorkflow gated)) = .ok inst ∧
      (inst.stepStates.get? "write").map StepState.status = status ∧
      ((resolveInputs inst publishStep).get? "write").bind textOf = input ∧
      (((inst.stepStates.get? "publish").bind StepState.output).bind
        (fun output => output.get? "write")).bind textOf = output := by
  unfold draftFacts at facts
  split at facts
  · next inst folded =>
    cases facts
    exact ⟨inst, folded, rfl, rfl, rfl⟩
  · cases facts

/-- The first step is skipped when its output has been flagged, and the second
one is driven. -/
@[irreducible]
def draftSkipped : Actors :=
  let held := interleave (draftSetting false) {} [(0, .inl draftDrive), (0, .inr 60)]
    { world := World.opened (draftSetting false) none }
  interleave (draftSetting false) {}
    [(1, .inl (skipFirst held.world)), (1, .inr 20), (2, .inl draftDrive), (2, .inr 60)] held

/-- The output of a step that was flagged for review and skipped is the input of
the step that depends on it, which publishes it. -/
theorem skipped_output_published :
    ReachedFrom (draftSetting false) unconditionally draftSkipped ∧
      ∃ inst state publish, fold draftSkipped.world.log (some (draftWorkflow false)) = .ok inst ∧
        inst.stepStates.get? "write" = some state ∧ state.status = .skipped ∧
        publishStep ∈ (draftWorkflow false).steps ∧ "write" ∈ publishStep.dependencies ∧
        ((resolveInputs inst publishStep).get? "write").bind textOf = some "draft" ∧
        (resolveInputs inst publishStep).get? "write" ≠ some (JsonDict.toJson Dict.empty) ∧
        inst.stepStates.get? "publish" = some publish ∧
        (publish.output.bind fun output => output.get? "write").bind textOf = some "draft" := by
  constructor
  · unfold draftSkipped
    exact ⟨_, ⟨_, 0, [], rfl, rfl, rfl, rfl⟩, (run_interleave (fun _ => trivial) _ _ _).trans
      (run_interleave (fun _ => trivial) _ _ _)⟩
  · have facts : draftFacts false draftSkipped.world =
        some (some .skipped, some "draft", some "draft") := by decide +kernel
    obtain ⟨inst, folded, skipped, input, published⟩ := exists_of_draftFacts facts
    obtain ⟨state, stored, isSkipped⟩ := Option.map_eq_some_iff.mp skipped
    obtain ⟨output, outputOf, text⟩ := Option.bind_eq_some_iff.mp published
    obtain ⟨outputs, outputsOf, found⟩ := Option.bind_eq_some_iff.mp outputOf
    obtain ⟨publish, publishStored, publishOutput⟩ := Option.bind_eq_some_iff.mp outputsOf
    refine ⟨inst, state, publish, folded, stored, isSkipped, List.mem_cons_of_mem _
      (List.mem_singleton_self _), List.mem_singleton_self _, input, ?_, publishStored, ?_⟩
    · intro empty
      rw [empty] at input
      cases input
    · rw [publishOutput, Option.bind_some, found]
      exact text

/-- The events by which a world has grown skip no step that has an output. -/
def sparesOutputs (world next : World) : Bool :=
  (next.log.drop world.log.length).all fun event =>
    match event.payload with
    | .stepStatusChanged stepId _ .skipped _ | .stepSkipped stepId _ =>
        ((replay world.log).steps stepId).output.isNone
    | _ => true

theorem skipsOutputless_of_sparesOutputs (acting : Acting) (world : World) (op : Op) (next : World)
    (spares : next.log = world.log ∨ sparesOutputs world next = true) :
    skipsOutputless acting world op next := by
  intro batch grown event member stepId skips
  rcases spares with sameLog | spares
  · rw [grown, List.append_right_eq_self] at sameLog
    subst sameLog
    cases member
  · unfold sparesOutputs at spares
    rw [grown, List.drop_left] at spares
    have spared := List.all_eq_true.mp spares event member
    unfold outputless
    cases payload : event.payload with
    | stepStatusChanged skipped source target =>
      rw [payload] at spared skips
      cases target with
      | skipped =>
        obtain rfl : skipped = stepId := skips
        rw [Option.isNone_iff_eq_none.mp spared]
        rfl
      | _ => exact skips.elim
    | stepSkipped skipped =>
      rw [payload] at spared skips
      obtain rfl : skipped = stepId := skips
      rw [Option.isNone_iff_eq_none.mp spared]
      rfl
    | _ =>
      rw [payload] at skips
      exact skips.elim

/-- The first step is skipped while it waits for its approval. -/
@[irreducible]
def draftSpared : Actors :=
  let held := interleaveOnly skipsOutputless sparesOutputs (draftSetting true) {}
    [(0, .inl draftDrive), (0, .inr 60)] { world := World.opened (draftSetting true) none }
  interleaveOnly skipsOutputless sparesOutputs (draftSetting true) {}
    [(1, .inl (skipFirst held.world)), (1, .inr 20)] held

theorem skipped_input_empty_draftSpared :
    ∃ inst state, fold draftSpared.world.log (some (draftWorkflow true)) = .ok inst ∧
      inst.stepStates.get? "write" = some state ∧ state.status = .skipped ∧
      (resolveInputs inst publishStep).get? "write" = some (JsonDict.toJson Dict.empty) := by
  have reached : ReachedFrom (draftSetting true) skipsOutputless draftSpared := by
    unfold draftSpared
    exact ⟨_, ⟨_, 0, [], rfl, rfl, rfl, rfl⟩,
      (run_interleaveOnly (fun _ => trivial) skipsOutputless_of_sparesOutputs _ _ _).trans
        (run_interleaveOnly (fun _ => trivial) skipsOutputless_of_sparesOutputs _ _ _)⟩
  have facts : draftFacts true draftSpared.world = some (some .skipped, none, none) := by
    decide +kernel
  obtain ⟨inst, folded, skipped, _⟩ := exists_of_draftFacts facts
  obtain ⟨state, stored, isSkipped⟩ := Option.map_eq_some_iff.mp skipped
  exact ⟨inst, state, folded, stored, isSkipped,
    skipped_input_empty reached folded (List.mem_singleton_self _) stored isSkipped⟩

end AgentForge.Guarantees
