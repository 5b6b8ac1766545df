import AgentForge.Engine.PlanLaws

/-!
# When a plan is made, and when it acts

A plan can be made whenever every step of the definition has a stored state.
The dependency graph has no cycles, so a plan for an instance none of whose
steps is held or running always finds something to do.
-/

namespace AgentForge.Engine

open Domain Library

variable {inst : WorkflowInstance} {definition : WorkflowDefinition} {now : Time}
  {steps : List WorkflowStep} {plan : Plan} {scan final : Scan}

/-- Every step of the definition has a stored state. -/
def Stored (definition : WorkflowDefinition) (inst : WorkflowInstance) : Prop :=
  ∀ stepId ∈ definition.stepIds, stepId ∈ inst.stepStates.keys

theorem stepState_of_mem {stepId : String} (stored : stepId ∈ inst.stepStates.keys) :
    stepState inst stepId = .ok (inst.stepOr stepId) := by
  obtain ⟨state, found⟩ := Dict.mem_keys_iff_get?.mp stored
  unfold stepState
  rw [found, WorkflowInstance.stepOr_of_get? found]

theorem stepOf_of_mem {step : WorkflowStep} (member : step ∈ definition.steps) :
    stepOf definition step.stepId = .ok step := by
  unfold stepOf
  rw [definition.step_stepId member]

theorem Stored.step (stored : Stored definition inst) {step : WorkflowStep}
    (member : step ∈ definition.steps) :
    stepState inst step.stepId = .ok (inst.stepOr step.stepId) :=
  stepState_of_mem (stored _ (List.mem_map_of_mem member))

/-! ## The scan -/

theorem depsDone_of_stored {dependencies : List String}
    (stored : ∀ dependency ∈ dependencies, dependency ∈ inst.stepStates.keys) :
    depsDone inst dependencies =
      .ok (dependencies.all fun dependency => isDone (inst.stepOr dependency).status) := by
  induction dependencies with
  | nil => rfl
  | cons first rest ih =>
    unfold depsDone
    rw [stepState_of_mem (stored first List.mem_cons_self),
      ih fun dependency member => stored dependency (List.mem_cons_of_mem _ member)]
    cases done : isDone (inst.stepOr first).status <;> simp [bind, Except.bind, done, pure,
      Except.pure]

/-- The step may run now, up to approvals. -/
def Runnable (inst : WorkflowInstance) (now : Time) (step : WorkflowStep) : Prop :=
  ((inst.stepOr step.stepId).status = .pending ∨ (inst.stepOr step.stepId).status = .ready) ∧
      (∀ dependency ∈ step.dependencies, isDone (inst.stepOr dependency).status = true) ∨
    (inst.stepOr step.stepId).status = .failed ∧
      ∃ retryAt ≤ now, (inst.stepOr step.stepId).nextRetryAt = some retryAt

/-- The step waits for its next attempt. -/
def Postponed (inst : WorkflowInstance) (now : Time) (step : WorkflowStep) : Prop :=
  (inst.stepOr step.stepId).status = .failed ∧
    ∃ retryAt, (inst.stepOr step.stepId).nextRetryAt = some retryAt ∧ ¬ retryAt ≤ now

/-- A scan that has missed nothing. -/
structure Complete (inst : WorkflowInstance) (now : Time) (steps : List WorkflowStep)
    (scan : Scan) : Prop where
  runnable : ∀ step ∈ steps, Runnable inst now step →
    step.stepId ∈ scan.candidates.map Prod.fst
  failed : ∀ step ∈ steps, FailedForGood inst step.stepId → scan.terminalFailure ≠ none
  postponed : ∀ step ∈ steps, Postponed inst now step → scan.retryWakeup ≠ none

namespace Complete

variable {steps : List WorkflowStep} {scan next : Scan} {step : WorkflowStep}

variable (complete : Complete inst now steps scan)

include complete

/-- One more step, of which the scan has taken what there is to take. -/
private theorem concat (candidates : ∀ candidate ∈ scan.candidates, candidate ∈ next.candidates)
    (failure : scan.terminalFailure ≠ none → next.terminalFailure ≠ none)
    (wakeup : scan.retryWakeup ≠ none → next.retryWakeup ≠ none)
    (taken : Complete inst now [step] next) : Complete inst now (steps ++ [step]) next := by
  constructor
  · intro other member runnable
    rcases List.mem_append.mp member with old | new
    · obtain ⟨candidate, listed, same⟩ := List.mem_map.mp (complete.runnable other old runnable)
      exact List.mem_map.mpr ⟨candidate, candidates candidate listed, same⟩
    · exact taken.runnable other new runnable
  · intro other member failed
    rcases List.mem_append.mp member with old | new
    · exact failure (complete.failed other old failed)
    · exact taken.failed other new failed
  · intro other member postponed
    rcases List.mem_append.mp member with old | new
    · exact wakeup (complete.postponed other old postponed)
    · exact taken.postponed other new postponed

omit complete in
/-- The single step is none of what a scan looks for. -/
private theorem of_passive (runnable : ¬ Runnable inst now step)
    (failed : (inst.stepOr step.stepId).status ≠ .failed) : Complete inst now [step] next := by
  constructor
  · intro other member isRunnable
    exact absurd (List.mem_singleton.mp member ▸ isRunnable) runnable
  · intro other member forGood
    exact absurd (List.mem_singleton.mp member ▸ forGood.1) failed
  · intro other member postponed
    exact absurd (List.mem_singleton.mp member ▸ postponed.1) failed

omit complete in
/-- The single step is a candidate. -/
private theorem of_candidate (listed : step.stepId ∈ next.candidates.map Prod.fst)
    (retried : (inst.stepOr step.stepId).status = .failed →
      ∃ retryAt ≤ now, (inst.stepOr step.stepId).nextRetryAt = some retryAt) :
    Complete inst now [step] next := by
  constructor
  · intro other member _
    rwa [List.mem_singleton.mp member]
  · intro other member forGood
    rw [List.mem_singleton.mp member] at forGood
    obtain ⟨_, _, scheduled⟩ := retried forGood.1
    simp [forGood.2] at scheduled
  · intro other member postponed
    rw [List.mem_singleton.mp member] at postponed
    obtain ⟨retryAt, due, scheduled⟩ := retried postponed.1
    obtain ⟨_, other, notDue⟩ := postponed.2
    rw [scheduled] at other
    cases other
    exact absurd due notDue

/-- A scan of stored steps succeeds and misses nothing. -/
theorem exists_scanStep (stored : step.stepId ∈ inst.stepStates.keys)
    (storedDeps : ∀ dependency ∈ step.dependencies, dependency ∈ inst.stepStates.keys) :
    ∃ next, scanStep inst now scan step = .ok next ∧ Complete inst now (steps ++ [step]) next := by
  have ready : ∀ done : Bool, (step.dependencies.all fun dependency =>
      isDone (inst.stepOr dependency).status) = done →
        (done = true ↔ ∀ dependency ∈ step.dependencies,
          isDone (inst.stepOr dependency).status = true) := by
    rintro _ rfl
    exact List.all_eq_true
  unfold scanStep
  simp only [stepState_of_mem stored, depsDone_of_stored storedDeps, bind, Except.bind]
  generalize (step.dependencies.all fun dependency =>
    isDone (inst.stepOr dependency).status) = done at ready
  have ready := ready done rfl
  have waiting (status : (inst.stepOr step.stepId).status = .pending ∨
      (inst.stepOr step.stepId).status = .ready) :
      ∃ next, (pure (if done then { scan with
          candidates := scan.candidates ++
            [(step.stepId, (inst.stepOr step.stepId).attempts + 1)] } else scan) :
          Except Exn Scan) = .ok next ∧ Complete inst now (steps ++ [step]) next := by
    have notFailed : (inst.stepOr step.stepId).status ≠ .failed := by
      rcases status with found | found <;> simp [found]
    refine ⟨_, rfl, ?_⟩
    cases done with
    | true =>
      exact complete.concat (fun _ listed => List.mem_append_left _ listed) id id
        (of_candidate (by simp) fun failed => absurd failed notFailed)
    | false =>
      refine complete.concat (fun _ listed => listed) id id (of_passive ?_ notFailed)
      rintro (⟨_, depsDone⟩ | ⟨failed, _⟩)
      · exact absurd (ready.mpr depsDone) Bool.false_ne_true
      · exact notFailed failed
  have passive (status : (inst.stepOr step.stepId).status ≠ .pending ∧
      (inst.stepOr step.stepId).status ≠ .ready ∧ (inst.stepOr step.stepId).status ≠ .failed) :
      Complete inst now (steps ++ [step]) scan := by
    refine complete.concat (fun _ listed => listed) id id (of_passive ?_ status.2.2)
    rintro (⟨pending | isReady, _⟩ | ⟨failed, _⟩)
    · exact status.1 pending
    · exact status.2.1 isReady
    · exact status.2.2 failed
  cases status : (inst.stepOr step.stepId).status with
  | pending => exact waiting (.inl status)
  | ready => exact waiting (.inr status)
  | failed =>
    dsimp only
    cases scheduled : (inst.stepOr step.stepId).nextRetryAt with
    | none =>
      refine ⟨_, rfl, complete.concat (fun _ listed => listed) ?_ id ?_⟩
      · intro found
        cases first : scan.terminalFailure with
        | none => exact absurd first found
        | some failure => simp
      · constructor
        · rintro other member (⟨found, _⟩ | ⟨_, _, _, found⟩)
          · rw [List.mem_singleton.mp member, status] at found
            simp at found
          · rw [List.mem_singleton.mp member, scheduled] at found
            cases found
        · intro _ _ _
          cases scan.terminalFailure <;> simp
        · rintro other member ⟨_, _, found, _⟩
          rw [List.mem_singleton.mp member, scheduled] at found
          cases found
    | some retryAt =>
      dsimp only
      by_cases due : retryAt ≤ now
      · rw [if_pos due]
        exact ⟨_, rfl, complete.concat (fun _ listed => List.mem_append_left _ listed) id id
          (of_candidate (by simp) fun _ => ⟨retryAt, due, scheduled⟩)⟩
      · rw [if_neg due]
        refine ⟨_, rfl, complete.concat (fun _ listed => listed) id (fun _ => by simp) ?_⟩
        constructor
        · rintro other member (⟨found, _⟩ | ⟨_, _, isDue, found⟩)
          · rw [List.mem_singleton.mp member, status] at found
            simp at found
          · rw [List.mem_singleton.mp member, scheduled] at found
            cases found
            exact absurd isDue due
        · intro other member forGood
          rw [List.mem_singleton.mp member] at forGood
          simp [forGood.2] at scheduled
        · intro _ _ _
          simp
  | running | waitingApproval | completed | skipped | compensated =>
    exact ⟨scan, rfl, passive (by simp [status])⟩

theorem exists_scanSteps {after : List WorkflowStep}
    (stored : ∀ step ∈ after, step.stepId ∈ inst.stepStates.keys ∧ ∀ dependency ∈
      step.dependencies, dependency ∈ inst.stepStates.keys) :
    ∃ final, scanSteps inst now after scan = .ok final ∧
      Complete inst now (steps ++ after) final := by
  induction after generalizing steps scan with
  | nil => exact ⟨scan, rfl, by simpa using complete⟩
  | cons step rest ih =>
    obtain ⟨known, knownDeps⟩ := stored step List.mem_cons_self
    obtain ⟨next, scanned, complete⟩ := complete.exists_scanStep known knownDeps
    obtain ⟨final, scannedRest, complete⟩ := ih complete fun other member =>
      stored other (List.mem_cons_of_mem _ member)
    refine ⟨final, ?_, by simpa using complete⟩
    rw [scanSteps, scanned]
    exact scannedRest

end Complete

theorem exists_scan (stored : Stored definition inst) (now : Time) :
    ∃ scan, scanSteps inst now definition.steps {} = .ok scan ∧
      Complete inst now definition.steps scan := by
  have start : Complete inst now [] {} := by constructor <;> simp
  obtain ⟨scan, scanned, complete⟩ := start.exists_scanSteps fun step member =>
    ⟨stored _ (List.mem_map_of_mem member), fun dependency listed =>
      stored _ (definition.dependency_mem_stepIds member listed).2⟩
  exact ⟨scan, scanned, by simpa using complete⟩

/-! ## The plan -/

theorem exists_approvalNeeded {candidates : List (String × Nat)}
    (known : ∀ candidate ∈ candidates, candidate.1 ∈ definition.stepIds) :
    ∃ needed, approvalNeeded inst definition candidates = .ok needed := by
  induction candidates with
  | nil => exact ⟨[], rfl⟩
  | cons candidate rest ih =>
    obtain ⟨stepId, attempt⟩ := candidate
    obtain ⟨needed, found⟩ := ih fun other member => known other (List.mem_cons_of_mem _ member)
    obtain ⟨step, member, rfl⟩ := List.mem_map.mp (known _ List.mem_cons_self)
    unfold approvalNeeded
    simp only [stepOf_of_mem member, found, bind, Except.bind]
    split <;> exact ⟨_, rfl⟩

theorem allSettled_of_stored (stored : ∀ step ∈ steps, step.stepId ∈ inst.stepStates.keys) :
    allSettled inst steps =
      .ok (steps.all fun step => isSettled (inst.stepOr step.stepId).status) := by
  induction steps with
  | nil => rfl
  | cons first rest ih =>
    unfold allSettled
    rw [stepState_of_mem (stored first List.mem_cons_self),
      ih fun step member => stored step (List.mem_cons_of_mem _ member)]
    cases settled : isSettled (inst.stepOr first.stepId).status <;>
      simp [bind, Except.bind, settled, pure, Except.pure]

private theorem stored_steps (stored : Stored definition inst) :
    ∀ step ∈ definition.steps, step.stepId ∈ inst.stepStates.keys :=
  fun _ member => stored _ (List.mem_map_of_mem member)

/-- A plan can always be made. -/
theorem exists_plan (stored : Stored definition inst) (now : Time) :
    ∃ plan, Engine.plan inst definition now = .ok plan := by
  obtain ⟨scan, scanned, _⟩ := exists_scan stored now
  unfold Engine.plan
  simp only [scanned, bind, Except.bind]
  cases failure : scan.terminalFailure with
  | some failed => exact ⟨_, rfl⟩
  | none =>
    have known : ∀ candidate ∈ scan.candidates, candidate.1 ∈ definition.stepIds := by
      intro candidate listed
      exact (scanned_steps scanned).sublist.subset (List.mem_map_of_mem listed)
    obtain ⟨needed, found⟩ := @exists_approvalNeeded inst definition _ known
    dsimp only
    rw [found]
    dsimp only
    split
    · unfold planDispatch
      dsimp only
      split
      · exact ⟨_, rfl⟩
      · rw [allSettled_of_stored (stored_steps stored)]
        split <;> exact ⟨_, rfl⟩
    · exact ⟨_, rfl⟩

/-- No step is running or held, and no escalation is open. -/
structure Unheld (definition : WorkflowDefinition) (inst : WorkflowInstance) : Prop where
  counted : inst.countSteps .running = 0
  running : ∀ stepId ∈ definition.stepIds, (inst.stepOr stepId).status ≠ .running
  waiting : ∀ stepId ∈ definition.stepIds, (inst.stepOr stepId).status ≠ .waitingApproval
  compensated : ∀ stepId ∈ definition.stepIds, (inst.stepOr stepId).status ≠ .compensated
  escalations : openEscalations inst = []

/-- The plan has something to do. -/
def Plan.Acts (plan : Plan) : Prop :=
  plan.budgetBlockedStep ≠ none ∨ plan.approvalNeeded ≠ [] ∨ plan.terminalFailure ≠ none ∨
    plan.dispatch ≠ [] ∨ plan.allSettled = true ∨ plan.retryWakeup ≠ none

/-- A scan that has found nothing has found every step settled. -/
private theorem Complete.allSettled {scan : Scan} (unheld : Unheld definition inst)
    (complete : Complete inst now definition.steps scan) (none : scan.candidates = [])
    (unfailed : scan.terminalFailure = .none) (unpostponed : scan.retryWakeup = .none) :
    (definition.steps.all fun step => isSettled (inst.stepOr step.stepId).status) = true := by
  by_contra unsettled
  rw [List.all_eq_true] at unsettled
  push Not at unsettled
  obtain ⟨step, member, isOpen, known⟩ := definition.exists_first
    (fun stepId => isSettled (inst.stepOr stepId).status = true) unsettled
  have listed : step.stepId ∈ definition.stepIds := List.mem_map_of_mem member
  have depsDone : ∀ dependency ∈ step.dependencies,
      isDone (inst.stepOr dependency).status = true := by
    intro dependency depends
    have settled := known dependency depends
    have intact := unheld.compensated dependency
      (definition.dependency_mem_stepIds member depends).2
    cases status : (inst.stepOr dependency).status <;>
      simp [status, isSettled, isDone] at settled intact ⊢
  have notRunnable : ¬ Runnable inst now step := by
    intro runnable
    have found := complete.runnable step member runnable
    rw [none] at found
    cases found
  cases status : (inst.stepOr step.stepId).status with
  | pending => exact notRunnable (.inl ⟨.inl status, depsDone⟩)
  | ready => exact notRunnable (.inl ⟨.inr status, depsDone⟩)
  | running => exact unheld.running _ listed status
  | waitingApproval => exact unheld.waiting _ listed status
  | failed =>
    cases scheduled : (inst.stepOr step.stepId).nextRetryAt with
    | none => exact complete.failed step member ⟨status, scheduled⟩ unfailed
    | some retryAt =>
      by_cases due : retryAt ≤ now
      · exact notRunnable (.inr ⟨status, retryAt, due, scheduled⟩)
      · exact complete.postponed step member ⟨status, retryAt, scheduled, due⟩ unpostponed
  | completed | skipped | compensated => simp [status, isSettled] at isOpen

private theorem acts_of_planDispatch {scan : Scan} (stored : Stored definition inst)
    (unheld : Unheld definition inst) (complete : Complete inst now definition.steps scan)
    (unfailed : scan.terminalFailure = none)
    (planned : planDispatch inst definition scan = .ok plan) : plan.Acts := by
  unfold planDispatch at planned
  simp only [unheld.escalations, unheld.counted, List.not_mem_nil, not_false_eq_true,
    decide_true, List.filter_true, Nat.sub_zero] at planned
  split at planned
  · cases planned
    exact .inl (by simp)
  · split at planned
    · next idle =>
      simp only [Bool.and_eq_true, List.isEmpty_iff, Option.isNone_iff_eq_none, and_true] at idle
      obtain ⟨nothing, unpostponed⟩ := idle
      have none : scan.candidates = [] := by
        rcases List.take_eq_nil_iff.mp nothing with zero | empty
        · exact absurd zero (Nat.one_le_iff_ne_zero.mp definition.one_le_maxConcurrentSteps)
        · exact empty
      rw [allSettled_of_stored (stored_steps stored),
        complete.allSettled unheld none unfailed unpostponed] at planned
      cases planned
      exact .inr (.inr (.inr (.inr (.inl rfl))))
    · next busy =>
      cases planned
      by_cases nothing : scan.candidates.take definition.maxConcurrentSteps = []
      · refine .inr (.inr (.inr (.inr (.inr ?_))))
        intro unpostponed
        apply busy
        simp [nothing, show scan.retryWakeup = none from unpostponed]
      · exact .inr (.inr (.inr (.inl nothing)))

/-- A plan that neither fails nor asks for approvals dispatches what the scan has
found. -/
private theorem planDispatch_of_plan (stored : Stored definition inst)
    (planned : Engine.plan inst definition now = .ok plan) : plan.terminalFailure ≠ none ∨
      plan.approvalNeeded ≠ [] ∨ ∃ scan, Complete inst now definition.steps scan ∧
        scan.terminalFailure = none ∧ planDispatch inst definition scan = .ok plan := by
  obtain ⟨scan, scanned, complete⟩ := exists_scan stored now
  unfold Engine.plan at planned
  simp only [scanned, bind, Except.bind] at planned
  cases failure : scan.terminalFailure with
  | some failed =>
    rw [failure] at planned
    cases planned
    exact .inl (by simp)
  | none =>
    rw [failure] at planned
    obtain ⟨needed, _, planned⟩ := bind_eq_ok.mp planned
    by_cases empty : needed = []
    · rw [if_pos (by simp [empty])] at planned
      exact .inr (.inr ⟨scan, complete, failure, planned⟩)
    · rw [if_neg (by simpa using empty)] at planned
      cases planned
      exact .inr (.inl empty)

/-- A plan for an instance that nothing holds finds something to do. -/
theorem plan_acts (stored : Stored definition inst) (unheld : Unheld definition inst)
    (planned : Engine.plan inst definition now = .ok plan) : plan.Acts := by
  obtain failed | waits | ⟨scan, complete, failure, planned⟩ := planDispatch_of_plan stored planned
  · exact .inr (.inr (.inl failed))
  · exact .inr (.inl waits)
  · exact acts_of_planDispatch stored unheld complete failure planned

/-- The first step of the list that has failed for good, as the policy reports
it. -/
def firstFailure (inst : WorkflowInstance) (steps : List WorkflowStep) :
    Option (String × String) :=
  (steps.find? fun step => (inst.stepOr step.stepId).status = .failed &&
    (inst.stepOr step.stepId).nextRetryAt.isNone).map fun step =>
      failureOf (inst.stepOr step.stepId) step.stepId

/-! ## The next wake-up -/

/-- The time of a retry that is not due yet. -/
def postponedTime (inst : WorkflowInstance) (now : Time) (step : WorkflowStep) : Option Time :=
  if (inst.stepOr step.stepId).status = .failed then
    (inst.stepOr step.stepId).nextRetryAt.filter fun retryAt => ¬ retryAt ≤ now
  else
    none

/-- The times of the retries that are not due yet. -/
def postponedTimes (inst : WorkflowInstance) (now : Time) (steps : List WorkflowStep) :
    List Time :=
  steps.filterMap (postponedTime inst now)

theorem mem_postponedTimes {time : Time} :
    time ∈ postponedTimes inst now steps ↔ now < time ∧ ∃ step ∈ steps,
      (inst.stepOr step.stepId).status = .failed ∧
        (inst.stepOr step.stepId).nextRetryAt = some time := by
  unfold postponedTimes
  rw [List.mem_filterMap]
  constructor
  · rintro ⟨step, member, found⟩
    unfold postponedTime at found
    by_cases failed : (inst.stepOr step.stepId).status = .failed
    · rw [if_pos failed, Option.filter_eq_some_iff] at found
      exact ⟨by simpa using found.2, step, member, failed, found.1⟩
    · rw [if_neg failed] at found
      cases found
  · rintro ⟨later, step, member, failed, scheduled⟩
    refine ⟨step, member, ?_⟩
    rw [postponedTime, if_pos failed, scheduled]
    simp [later]

/-! ## Scans and plans -/

private theorem fields_of_scanStep {scan next : Scan} {step : WorkflowStep}
    (scanned : scanStep inst now scan step = .ok next) :
    next.terminalFailure = scan.terminalFailure.or (firstFailure inst [step]) ∧
      next.retryWakeup =
        (scan.retryWakeup.toList ++ (postponedTime inst now step).toList).min? := by
  unfold scanStep at scanned
  obtain ⟨state, found, scanned⟩ := bind_eq_ok.mp scanned
  obtain ⟨ready, _, scanned⟩ := bind_eq_ok.mp scanned
  rw [← stepState_eq_ok found] at scanned
  unfold firstFailure postponedTime
  cases status : (inst.stepOr step.stepId).status with
  | pending | ready =>
    rw [status] at scanned
    cases scanned
    cases ready <;> cases wakeup : scan.retryWakeup <;> simp [status, wakeup]
  | failed =>
    rw [status] at scanned
    dsimp only at scanned
    cases scheduled : (inst.stepOr step.stepId).nextRetryAt with
    | none =>
      rw [scheduled] at scanned
      cases scanned
      cases scan.retryWakeup <;> simp [status, scheduled]
    | some retryAt =>
      rw [scheduled] at scanned
      dsimp only at scanned
      by_cases due : retryAt ≤ now
      · rw [if_pos due] at scanned
        cases scanned
        cases scan.retryWakeup <;> simp [scheduled, Option.filter, due]
      · rw [if_neg due] at scanned
        cases scanned
        cases scan.retryWakeup <;> simp [scheduled, Option.filter, not_le.mp due]
  | running | waitingApproval | completed | skipped | compensated =>
    rw [status] at scanned
    cases scanned
    cases scan.retryWakeup <;> simp [status]

private theorem min?_append_toList (first second rest : List Time) :
    ((first ++ second).min?.toList ++ rest).min? = (first ++ (second ++ rest)).min? := by
  rw [← List.append_assoc]
  cases first ++ second with
  | nil => rfl
  | cons time times =>
    rw [List.cons_append, List.min?_cons', List.min?_cons', List.foldl_append,
      Option.toList_some, List.singleton_append, List.min?_cons']

private theorem fields_of_scanSteps (scanned : scanSteps inst now steps scan = .ok final) :
    final.terminalFailure = scan.terminalFailure.or (firstFailure inst steps) ∧
      final.retryWakeup = (scan.retryWakeup.toList ++ postponedTimes inst now steps).min? := by
  induction steps generalizing scan with
  | nil =>
    cases scanned
    cases wakeup : final.retryWakeup <;> simp [firstFailure, postponedTimes]
  | cons step rest ih =>
    obtain ⟨next, scannedStep, scannedRest⟩ := bind_eq_ok.mp scanned
    obtain ⟨failure, wakeup⟩ := fields_of_scanStep scannedStep
    obtain ⟨laterFailure, laterWakeup⟩ := ih scannedRest
    rw [laterFailure, failure, laterWakeup, wakeup, Option.or_assoc, min?_append_toList]
    constructor
    · congr 1
      unfold firstFailure
      rw [List.find?_singleton, List.find?_cons]
      cases ((inst.stepOr step.stepId).status = .failed &&
        (inst.stepOr step.stepId).nextRetryAt.isNone : Bool) <;> simp
    · unfold postponedTimes
      cases timed : postponedTime inst now step <;> simp [timed]

/-- The plan reports the first step of the definition that has failed for good,
and then nothing else but the next retry. -/
private theorem fields_of_plan (planned : Engine.plan inst definition now = .ok plan) :
    (plan.terminalFailure = firstFailure inst definition.steps ∧
      (plan.terminalFailure ≠ none →
        plan.budgetBlockedStep = none ∧ plan.approvalNeeded = [])) ∧
      plan.retryWakeup = (postponedTimes inst now definition.steps).min? := by
  unfold Engine.plan at planned
  obtain ⟨scan, scanned, planned⟩ := bind_eq_ok.mp planned
  obtain ⟨found, wakeup⟩ := fields_of_scanSteps scanned
  rw [Option.none_or] at found
  rw [Option.toList_none, List.nil_append] at wakeup
  rw [← found, ← wakeup]
  cases failure : scan.terminalFailure with
  | some failed =>
    rw [failure] at planned
    cases planned
    exact ⟨⟨rfl, fun _ => ⟨rfl, rfl⟩⟩, rfl⟩
  | none =>
    rw [failure] at planned
    obtain ⟨needed, _, planned⟩ := bind_eq_ok.mp planned
    split at planned
    · unfold planDispatch at planned
      dsimp only at planned
      split at planned
      · cases planned
        exact ⟨⟨rfl, absurd rfl⟩, rfl⟩
      · split at planned
        · next idle =>
          simp only [Bool.and_eq_true, Option.isNone_iff_eq_none] at idle
          obtain ⟨settled, _, planned⟩ := bind_eq_ok.mp planned
          cases planned
          exact ⟨⟨rfl, absurd rfl⟩, idle.1.2.symm⟩
        · cases planned
          exact ⟨⟨rfl, absurd rfl⟩, rfl⟩
    · cases planned
      exact ⟨⟨rfl, absurd rfl⟩, rfl⟩

theorem terminalFailure_of_plan (planned : Engine.plan inst definition now = .ok plan) :
    plan.terminalFailure = firstFailure inst definition.steps ∧
      (plan.terminalFailure ≠ none → plan.budgetBlockedStep = none ∧ plan.approvalNeeded = []) :=
  (fields_of_plan planned).1

/-- A plan wakes up for the first of the retries that are not due yet. -/
theorem retryWakeup_of_plan (planned : Engine.plan inst definition now = .ok plan) :
    plan.retryWakeup = (postponedTimes inst now definition.steps).min? :=
  (fields_of_plan planned).2

theorem lt_of_retryWakeup (planned : Engine.plan inst definition now = .ok plan) {wakeup : Time}
    (found : plan.retryWakeup = some wakeup) : now < wakeup := by
  rw [retryWakeup_of_plan planned] at found
  exact (mem_postponedTimes.mp (List.min?_mem found)).1

/-! ## Settlement -/

/-- With every step done there is nothing left to find. -/
theorem allSettled_of_done (stored : Stored definition inst)
    (counted : inst.countSteps .running = 0)
    (done : ∀ step ∈ definition.steps, isDone (inst.stepOr step.stepId).status = true)
    (planned : Engine.plan inst definition now = .ok plan) : plan.allSettled = true := by
  have notFailed : ∀ step ∈ definition.steps, (inst.stepOr step.stepId).status ≠ .failed := by
    intro step member failed
    have isDone := done step member
    rw [failed] at isDone
    cases isDone
  have settled : (definition.steps.all fun step =>
      isSettled (inst.stepOr step.stepId).status) = true := by
    rw [List.all_eq_true]
    intro step member
    have isDone := done step member
    cases status : (inst.stepOr step.stepId).status <;> simp [status, Engine.isDone] at isDone ⊢ <;>
      rfl
  obtain ⟨scan, scanned, _⟩ := exists_scan stored now
  have none : scan.candidates = [] := by
    by_contra nonempty
    obtain ⟨candidate, listed⟩ := List.exists_mem_of_ne_nil _ nonempty
    obtain ⟨step, _, candidateOk⟩ := (scanned_steps scanned).candidates candidate listed
    have isDone := done step candidateOk.member
    rcases candidateOk.runnable with ⟨pending | ready, _⟩ | ⟨failed, _⟩
    · simp [pending, Engine.isDone] at isDone
    · simp [ready, Engine.isDone] at isDone
    · exact notFailed step candidateOk.member failed
  have unfailed : scan.terminalFailure = .none := by
    rw [(fields_of_scanSteps scanned).1, Option.none_or, firstFailure]
    simp only [Option.map_eq_none_iff, List.find?_eq_none]
    intro step member
    simp [notFailed step member]
  have unpostponed : scan.retryWakeup = .none := by
    rw [(fields_of_scanSteps scanned).2, Option.toList_none, List.nil_append,
      List.min?_eq_none_iff,
      List.eq_nil_iff_forall_not_mem]
    intro time listed
    obtain ⟨_, step, member, failed, _⟩ := mem_postponedTimes.mp listed
    exact notFailed step member failed
  unfold Engine.plan at planned
  simp only [scanned, bind, Except.bind, unfailed, none, approvalNeeded, pure, Except.pure,
    List.isEmpty_nil, if_true, planDispatch, List.filter_nil, List.head?_nil, Option.filter_none,
    List.take_nil, unpostponed, Option.isNone_none, counted, Bool.and_self, decide_true,
    allSettled_of_stored (stored_steps stored), settled] at planned
  cases planned
  rfl

end AgentForge.Engine
