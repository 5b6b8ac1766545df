import AgentForge.Refinement.Attempts
import AgentForge.Refinement.Head

/-!
# Starting a wave

A wave starts the steps it dispatches and runs one attempt of each.  The stages
of a wave are described relative to the world at its head.
-/

namespace AgentForge.Refinement

open Domain Events Library Engine Protocol

variable {setting : Setting} {care : Care} {world next : World} {inst : WorkflowInstance}

variable {plan : Plan} {now : Time} {head : World} {dispatch : List (String × Nat)}
  {workerId : String} {results : List AttemptResult} {config : Config} {state : State}

/-! ## Starting the steps -/

theorem keeps_readyEvents (consistent : Consistent setting world)
    (holds : Holds setting world inst) (stepId : String) : Keeps setting care
      (fun events next => Idle setting world next ∧
        Drafted (rulesOf setting) world.clock (readyPayloads (replay world.log) stepId) events)
      (readyEvents inst stepId) world := by
  refine keeps_lift_bind (fun _ => consistent) ?_
  intro state found
  have same : ((replay world.log).steps stepId).status = state.status := by
    rw [holds.steps, stepState_eq_ok found]
    rfl
  unfold readyPayloads
  by_cases pending : state.status = .pending
  · rw [if_pos pending, if_pos (same.trans pending)]
    exact (keeps_draftEvent consistent inst _).bind fun _ _ drafted => drafted
  · rw [if_neg pending, if_neg fun found => pending (same.symm.trans found)]
    exact ⟨.refl setting world, .nil⟩

private theorem keeps_startEvents (consistent : Consistent setting world)
    (holds : Holds setting world inst) (workerId : String) (candidate : String × Nat) :
    Keeps setting care
      (fun events next => Idle setting world next ∧ Drafted (rulesOf setting) world.clock
        (startPayloads (replay world.log) workerId candidate) events)
      (startEvents inst workerId candidate) world := by
  refine (keeps_readyEvents consistent holds candidate.1).bind ?_
  rintro readied middle ⟨idle, readiedDrafted⟩
  refine (keeps_draftEvent (consistent.idle idle) inst _).bind ?_
  rintro started final ⟨idle', startedDrafted⟩
  exact ⟨idle.trans idle', readiedDrafted.append (startedDrafted.of_le idle.clock_le)⟩

private theorem keeps_starts (consistent : Consistent setting world)
    (holds : Holds setting world inst) (workerId : String) (dispatch : List (String × Nat)) :
    Keeps setting care
      (fun groups next => Idle setting world next ∧ Drafted (rulesOf setting) world.clock
        (dispatch.flatMap (startPayloads (replay world.log) workerId)) groups.flatten)
      (Program.traverse (startEvents inst workerId) dispatch) world := by
  apply Program.safe_traverse fun done groups next => Idle setting world next ∧
    Drafted (rulesOf setting) world.clock
      (done.flatMap (startPayloads (replay world.log) workerId)) (List.flatten groups)
  · exact ⟨.refl setting world, .nil⟩
  · rintro before candidate after _ groups middle ⟨idle, drafted⟩
    refine (keeps_startEvents (consistent.idle idle) (holds.idle idle) workerId candidate).imp ?_
    rintro events final ⟨idle', drafted'⟩
    rw [idle.log] at drafted'
    refine ⟨idle.trans idle', ?_⟩
    rw [List.flatMap_append, List.flatten_append, List.flatMap_singleton, List.flatten_singleton]
    exact drafted.append (drafted'.of_le idle.clock_le)

/-- A running workflow has its finished dependencies in place: a step that has
been started has its dependencies done. -/
theorem Consistent.done_of_started (consistent : Consistent setting world)
    (runs : (replay world.log).status = .running) (noRequeue : ¬ (rulesOf setting).requeues)
    {step : WorkflowStep} (member : step ∈ setting.definition.steps)
    (started : (replay world.log).Started step.stepId) {dependency : String}
    (depends : dependency ∈ step.dependencies) : (replay world.log).Done dependency := by
  rcases consistent.run.invariant.depsSettled noRequeue step member started dependency depends
    with done | compensated
  · exact done
  · have rolledBack := consistent.rest.compensated dependency compensated
    rw [runs] at rolledBack
    cases rolledBack

private theorem done_of_isDone (holds : Holds setting world inst) {stepId : String}
    (done : isDone (inst.stepOr stepId).status = true) : (replay world.log).Done stepId := by
  unfold State.Done
  rw [holds.steps]
  change (inst.stepOr stepId).status = .completed ∨ (inst.stepOr stepId).status = .skipped
  cases status : (inst.stepOr stepId).status <;> simp [status, isDone] at done ⊢

/-- What a sound plan dispatches may be started. -/
theorem startable_of_soundPlan (consistent : Consistent setting world)
    (holds : Holds setting world inst) (runs : inst.status = .running)
    (sound : SoundPlan inst setting.definition now plan) : ∀ candidate ∈ plan.dispatch,
      Startable (rulesOf setting) (replay world.log) now candidate := by
  rintro ⟨stepId, attempt⟩ listed
  obtain ⟨⟨step, rfl, candidate⟩, notOpen, approved⟩ := sound.dispatch _ listed
  have steps := holds.steps step.stepId
  refine ⟨step, candidate.member, rfl, ?_, ?_, ?_, ?_, ?_⟩
  · rw [steps]
    exact candidate.attempt
  · intro noRequeue dependency depends
    rcases candidate.runnable with ⟨_, done⟩ | ⟨failed, _⟩
    · exact done_of_isDone holds (done dependency depends)
    · have started := consistent.run.invariant.startedStatus step.stepId
        (.inr (.inl (by rw [steps]; exact failed)))
      exact consistent.done_of_started (holds.status.trans runs) noRequeue candidate.member
        started depends
  · rw [steps]
    rcases candidate.runnable with ⟨pending | ready, _⟩ | ⟨failed, retryAt, due, scheduled⟩
    · exact .inl pending
    · exact .inr (.inl ready)
    · exact .inr (.inr ⟨failed, retryAt, scheduled, fun _ => due⟩)
  · rwa [holds.open_iff]
  · intro gated
    rw [holds.granted_iff]
    by_contra ungranted
    exact approved ⟨step, candidate.member, rfl, gated, notOpen, by simpa using ungranted⟩

/-! ## The stages of a wave -/

/-- A wave over these steps is under way since the world at its head. -/
structure Underway (setting : Setting) (care : Care) (head world : World)
    (stepIds : List String) : Prop where
  tidy : Tidy setting care head
  headConsistent : Consistent setting head
  consistent : Consistent setting world
  runs : (replay world.log).status = .running
  nodup : stepIds.Nodup
  untouched : ∀ stepId ∉ stepIds, (replay world.log).steps stepId = (replay head.log).steps stepId
  escalations : (replay world.log).escalations = (replay head.log).escalations

/-- The dispatched steps are running. -/
structure WaveStarted (setting : Setting) (care : Care) (head world : World)
    (dispatch : List (String × Nat)) : Prop
    extends Underway setting care head world (dispatch.map Prod.fst) where
  nonempty : dispatch ≠ []
  running : ∀ candidate ∈ dispatch, Running world candidate.1 candidate.2
  older : ¬ (rulesOf setting).requeues → ∀ candidate ∈ dispatch, ∀ record ∈ head.attempts,
    record.stepId = candidate.1 → record.attempt < candidate.2
  log : ∃ batch, world.log = head.log ++ batch ∧ batch ≠ [] ∧ NoEndings batch
  launched : ∃ batch, world.log = head.log ++ batch ∧
    ∀ candidate ∈ dispatch, ∃ event ∈ batch, starts event.payload candidate.1
  attempts : world.attempts = head.attempts
  modelCalls : world.modelCalls = head.modelCalls

theorem WaveStarted.idle
    (started : WaveStarted setting care head world dispatch) (idle : Idle setting world next) :
    WaveStarted setting care head next dispatch := by
  have consistent := started.consistent.idle idle
  obtain ⟨clock, issued, rfl, _, _⟩ := idle
  exact { started with consistent := consistent }

private theorem quiet_of_mem_startPayloads {candidate : String × Nat} {payload : Payload}
    (listed : payload ∈ startPayloads state workerId candidate) :
    quiet payload = true ∧ ends payload = false := by
  rcases List.mem_append.mp listed with readied | started
  · unfold readyPayloads at readied
    split at readied
    · rw [List.mem_singleton] at readied
      subst readied
      exact ⟨rfl, rfl⟩
    · cases readied
  · rw [List.mem_singleton] at started
    subst started
    exact ⟨rfl, rfl⟩

private theorem quiet_of_mem_starts : ∀ payload ∈ dispatch.flatMap (startPayloads state workerId),
      quiet payload = true ∧ ends payload = false := by
  intro payload listed
  obtain ⟨candidate, _, mine⟩ := List.mem_flatMap.mp listed
  exact quiet_of_mem_startPayloads mine

private theorem capacity_of_soundPlan
    (holds : Holds setting world inst) (sound : SoundPlan inst setting.definition now plan)
    (nonempty : plan.dispatch ≠ []) :
    (replay world.log).runningCount setting.definition.stepIds + plan.dispatch.length ≤
      setting.definition.maxConcurrentSteps := by
  have running := holds.runningCount_le
  have capacity := sound.capacity
  have some : 0 < plan.dispatch.length := List.length_pos_iff.mpr nonempty
  omega

private theorem budget_of_soundPlan
    (holds : Holds setting world inst) (sound : SoundPlan inst setting.definition now plan)
    (nonempty : plan.dispatch ≠ []) :
    ∀ remaining, (replay world.log).remaining = some remaining → 0 < remaining := by
  intro remaining found
  rw [holds.remaining] at found
  have funded := sound.budget nonempty
  simpa [budgetOut, found] using funded

/-- Starting a wave. -/
theorem keeps_startWave (atHead : AtHead setting care world inst) (runs : inst.status = .running)
    (sound : SoundPlan inst setting.definition now plan)
    (current : setting.monotoneClock → now ≤ world.clock) (nonempty : plan.dispatch ≠ []) :
    Keeps setting care
      (fun started next => Holds setting next started ∧
        WaveStarted setting care world next plan.dispatch)
      (do
        let started ← Program.traverse (startEvents inst workerId) plan.dispatch
        append setting.definition inst started.flatten)
      world := by
  refine (keeps_starts atHead.consistent atHead.holds workerId plan.dispatch).bind ?_
  rintro groups middle ⟨idle, drafted⟩
  have middleHead := atHead.idle idle
  have status : (replay middle.log).status = .running := middleHead.holds.status.trans runs
  have numbered := (drafted.of_le current).resequence middle.log.length
  rw [← idle.log] at numbered
  obtain ⟨legal, dispatched⟩ := legal_started status
    (budget_of_soundPlan middleHead.holds sound nonempty) sound.distinct
    (startable_of_soundPlan middleHead.consistent middleHead.holds runs sound)
    (capacity_of_soundPlan middleHead.holds sound nonempty) numbered
  have noEndings : NoEndings (resequence middle.log.length groups.flatten) :=
    fun event member => (numbered.forall_mem quiet_of_mem_starts event member).2
  have batchSound := sound_of_running middleHead.consistent status legal numbered
    fun payload listed => (quiet_of_mem_starts payload listed).1
  refine (keeps_append middleHead.holds middleHead.consistent
    (fun _ => .of_tidy middleHead.tidy batchSound noEndings) none).imp ?_
  rintro result final ⟨holds, consistent, appended⟩
  have after := dispatched (middleHead.holds.acceptsAll appended holds)
  rw [← appended.replay] at after
  refine ⟨holds, ?_⟩
  constructor
  case toUnderway =>
    constructor
    case tidy => exact atHead.tidy
    case headConsistent => exact atHead.consistent
    case consistent => exact consistent
    case runs => exact after.untouched.status.trans status
    case nodup => exact sound.distinct
    case untouched =>
      intro stepId notListed
      rw [after.untouched.steps stepId notListed, idle.log]
    case escalations => rw [after.untouched.escalations, idle.log]
  case nonempty => exact nonempty
  case running => exact after.running
  case older =>
    intro noRequeue candidate listed record member same
    obtain ⟨_, _, _, nextAttempt, _⟩ :=
      startable_of_soundPlan atHead.consistent atHead.holds runs sound candidate listed
    have counted := atHead.consistent.attempts noRequeue record member
    rw [same] at counted
    omega
  case log =>
    refine ⟨resequence middle.log.length groups.flatten, ?_, ?_, noEndings⟩
    · obtain ⟨rows, rfl⟩ := appended
      rw [← idle.log]
    · intro empty
      have payloads := numbered.payloads
      rw [empty] at payloads
      obtain ⟨first, rest, split⟩ := List.exists_cons_of_ne_nil nonempty
      simp [split, startPayloads] at payloads
  case launched =>
    refine ⟨resequence middle.log.length groups.flatten, ?_, ?_⟩
    · obtain ⟨rows, rfl⟩ := appended
      rw [← idle.log]
    · intro candidate listed
      obtain ⟨event, member, payload⟩ := numbered.exists_mem
        (List.mem_flatMap.mpr ⟨candidate, listed,
          List.mem_append_right _ (List.mem_singleton_self _)⟩)
      refine ⟨event, member, ?_⟩
      rw [payload]
      rfl
  case attempts =>
    obtain ⟨rows, rfl⟩ := appended
    obtain ⟨clock, issued, rfl, _, _⟩ := idle
    rfl
  case modelCalls =>
    obtain ⟨rows, rfl⟩ := appended
    obtain ⟨clock, issued, rfl, _, _⟩ := idle
    rfl

theorem keeps_budgetView (consistent : Consistent setting world) (inst : WorkflowInstance) :
    Keeps setting care (fun _ next => Idle setting world next) (budgetView config inst) world := by
  unfold budgetView
  cases config.budget with
  | none => exact .refl setting world
  | some dailyLimit =>
    refine (keeps_now consistent).bind ?_
    rintro now middle ⟨idle, _, _⟩
    cases dailyLimit with
    | none => exact idle
    | some limit =>
      refine ⟨⟨consistent.idle idle, trivial⟩, ?_⟩
      rintro spent final rfl
      exact idle

/-- The attempts of the wave have ended, with these results. -/
structure WaveEnded (setting : Setting) (care : Care) (head world : World)
    (results : List AttemptResult) : Prop
    extends Underway setting care head world (results.map AttemptResult.stepId) where
  nonempty : results ≠ []
  step : ∀ result ∈ results, result.step ∈ setting.definition.steps ∧
    result.step.stepId = result.stepId
  running : ∀ result ∈ results, Running world result.stepId result.attempt
  older : ¬ (rulesOf setting).requeues → ∀ result ∈ results, ∀ record ∈ head.attempts,
    record.stepId = result.stepId → record.attempt < result.attempt
  log : ∃ batch, world.log = head.log ++ batch ∧ batch ≠ [] ∧ NoEndings batch
  attempts : ∀ record ∈ world.attempts, record ∈ head.attempts ∨
    ∃ result ∈ results, record = recordOf result
  calls : ∀ record ∈ world.modelCalls, record.position = world.log.length →
    record.call.stepId ∈ results.map AttemptResult.stepId
  billed : care.charges → ∀ result ∈ results,
    result.outcome.charges.length ≤ freshCalls world result.stepId

theorem WaveEnded.idle (ended : WaveEnded setting care head world results)
    (idle : Idle setting world next) : WaveEnded setting care head next results := by
  have consistent := ended.consistent.idle idle
  obtain ⟨clock, issued, rfl, _, _⟩ := idle
  exact { ended with consistent := consistent }

/-- The results of a wave are those of its candidates, in order. -/
private theorem map_results {definition : WorkflowDefinition}
    (all : List.Forall₂ (fun candidate outcome => ∀ result, outcome = Except.ok result →
      ResultOf definition candidate result) dispatch
      (results.map (Except.ok : AttemptResult → Except Exn AttemptResult))) :
    results.map (fun result => (result.stepId, result.attempt)) = dispatch ∧
      ∀ result ∈ results, result.step ∈ definition.steps ∧ result.step.stepId = result.stepId := by
  induction results generalizing dispatch with
  | nil =>
    cases all
    simp
  | cons result rest ih =>
    cases all with
    | cons first others =>
      obtain ⟨same, step⟩ := first result rfl
      obtain ⟨sames, steps⟩ := ih others
      rw [List.map_cons, same, sames]
      refine ⟨rfl, ?_⟩
      intro other listed
      rcases List.mem_cons.mp listed with rfl | listed
      · exact step
      · exact steps other listed

/-- Running the attempts of a wave. -/
theorem keeps_runWave {budget : Option BudgetView} (metered : care.charges → Metered config)
    (started : WaveStarted setting care head world dispatch) : Keeps setting care
      (fun results next => next.log = world.log ∧ next.policies = world.policies ∧
        WaveEnded setting care head next results)
      (Program.gather (runOne config setting.definition inst budget) dispatch) world := by
  obtain ⟨batch, grown, nonempty, noEndings⟩ := started.log
  have earlier : ∀ record ∈ world.modelCalls, record.position < world.log.length := by
    intro record member
    rw [started.modelCalls] at member
    have before := started.headConsistent.positions record member
    have longer := List.length_pos_iff.mpr nonempty
    rw [grown, List.length_append]
    omega
  refine (keeps_gather metered started.consistent started.nodup started.running earlier).imp ?_
  intro results next inWave
  have consistent := inWave.consistent started.consistent started.running
  obtain ⟨clock, attempts, calls, rfl, _, mine, noted, billed, all⟩ := inWave
  obtain ⟨rfl, steps⟩ := map_results all
  have keys : (results.map fun result => (result.stepId, result.attempt)).map Prod.fst =
      results.map AttemptResult.stepId := by
    rw [List.map_map]
    rfl
  have candidateOf {result : AttemptResult} (listed : result ∈ results) :
      (result.stepId, result.attempt) ∈
        results.map fun result => (result.stepId, result.attempt) :=
    List.mem_map.mpr ⟨result, listed, rfl⟩
  refine ⟨rfl, rfl, ?_⟩
  constructor
  case toUnderway => exact { keys ▸ started.toUnderway with consistent := consistent }
  case nonempty => exact fun empty => started.nonempty (by rw [empty]; rfl)
  case step => exact steps
  case running => exact fun result listed => started.running _ (candidateOf listed)
  case older => exact fun noRequeue result listed => started.older noRequeue _ (candidateOf listed)
  case log => exact ⟨batch, grown, nonempty, noEndings⟩
  case attempts =>
    intro record member
    rcases List.mem_append.mp member with old | new
    · exact .inl (started.attempts ▸ old)
    · obtain ⟨result, listed, same⟩ := noted record new
      obtain ⟨other, otherListed, equal⟩ := List.mem_map.mp listed
      cases equal
      exact .inr ⟨result, otherListed, same⟩
  case calls =>
    intro record member now
    rcases List.mem_append.mp member with old | new
    · exact absurd now (earlier record old).ne
    · exact keys ▸ (mine record new).2
  case billed =>
    exact fun cares result listed => billed cares result (List.mem_map.mpr ⟨result, listed, rfl⟩)

end AgentForge.Refinement
