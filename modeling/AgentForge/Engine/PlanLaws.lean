import AgentForge.Engine.Plan
import AgentForge.Library.History

/-!
# What a plan promises

The plan only dispatches steps that may run, asks for approvals that are
missing, reports failures that have no retry, and calls the workflow settled
only if every step is.
-/

namespace AgentForge.Engine

open Domain Library

variable {inst : WorkflowInstance} {definition : WorkflowDefinition} {now : Time} {stepId : String}

theorem stepState_eq_ok {state : StepState} (found : stepState inst stepId = .ok state) :
    inst.stepOr stepId = state := by
  unfold stepState at found
  cases stored : inst.stepStates.get? stepId with
  | none =>
    rw [stored] at found
    cases found
  | some other =>
    rw [stored] at found
    cases found
    exact WorkflowInstance.stepOr_of_get? stored

theorem stepOf_eq_ok {step : WorkflowStep} (found : stepOf definition stepId = .ok step) :
    step ∈ definition.steps ∧ step.stepId = stepId := by
  unfold stepOf at found
  cases stored : definition.step stepId with
  | none =>
    rw [stored] at found
    cases found
  | some other =>
    rw [stored] at found
    cases found
    exact definition.step_eq_some stored

theorem depsDone_eq_true {dependencies : List String}
    (done : depsDone inst dependencies = .ok true) :
    ∀ dependency ∈ dependencies, isDone (inst.stepOr dependency).status = true := by
  induction dependencies with
  | nil => simp
  | cons first rest ih =>
    obtain ⟨state, found, continued⟩ := bind_eq_ok.mp done
    rw [← stepState_eq_ok found] at continued
    by_cases firstDone : isDone (inst.stepOr first).status = true
    · rw [if_pos firstDone] at continued
      simpa [firstDone] using ih continued
    · rw [if_neg firstDone] at continued
      cases continued

/-! ## The scan -/

/-- A step that may run now, up to approvals: it waits with its dependencies
done, or its retry is due. -/
structure Candidate (inst : WorkflowInstance) (definition : WorkflowDefinition) (now : Time)
    (step : WorkflowStep) (attempt : Nat) : Prop where
  member : step ∈ definition.steps
  attempt : attempt = (inst.stepOr step.stepId).attempts + 1
  runnable : ((inst.stepOr step.stepId).status = .pending ∨
      (inst.stepOr step.stepId).status = .ready) ∧
        (∀ dependency ∈ step.dependencies, isDone (inst.stepOr dependency).status = true) ∨
    (inst.stepOr step.stepId).status = .failed ∧
      ∃ retryAt ≤ now, (inst.stepOr step.stepId).nextRetryAt = some retryAt

/-- The step has failed and no retry is scheduled. -/
def FailedForGood (inst : WorkflowInstance) (stepId : String) : Prop :=
  (inst.stepOr stepId).status = .failed ∧ (inst.stepOr stepId).nextRetryAt = none

/-- A candidate of the plan, by the identifier of its step. -/
def IsCandidate (inst : WorkflowInstance) (definition : WorkflowDefinition) (now : Time)
    (candidate : String × Nat) : Prop :=
  ∃ step, step.stepId = candidate.1 ∧ Candidate inst definition now step candidate.2

/-- What the scan of a list of steps has found. -/
structure Scanned (inst : WorkflowInstance) (definition : WorkflowDefinition) (now : Time)
    (steps : List WorkflowStep) (scan : Scan) : Prop where
  sublist : (scan.candidates.map Prod.fst).Sublist (steps.map WorkflowStep.stepId)
  candidates : ∀ candidate ∈ scan.candidates, IsCandidate inst definition now candidate
  failure : ∀ failure, scan.terminalFailure = some failure →
    failure.1 ∈ definition.stepIds ∧ FailedForGood inst failure.1

namespace Scanned

variable {steps : List WorkflowStep} {scan : Scan} {step : WorkflowStep}

variable (scanned : Scanned inst definition now steps scan)

include scanned

private theorem skip : Scanned inst definition now (steps ++ [step]) scan := by
  refine { scanned with sublist := ?_ }
  rw [List.map_append]
  exact scanned.sublist.trans (List.sublist_append_left _ _)

private theorem add
    (candidate : Candidate inst definition now step ((inst.stepOr step.stepId).attempts + 1)) :
    Scanned inst definition now (steps ++ [step]) { scan with
      candidates := scan.candidates ++
        [(step.stepId, (inst.stepOr step.stepId).attempts + 1)] } := by
  refine ⟨?_, ?_, scanned.failure⟩
  · rw [List.map_append, List.map_append]
    exact scanned.sublist.append (List.Sublist.refl _)
  · exact forall_mem_concat scanned.candidates ⟨step, rfl, candidate⟩

private theorem fail (member : step ∈ definition.steps) (failed : FailedForGood inst step.stepId)
    (state : StepState) : Scanned inst definition now (steps ++ [step]) { scan with
      terminalFailure := scan.terminalFailure.or (some (failureOf state step.stepId)) } := by
  refine ⟨scanned.skip.sublist, scanned.candidates, ?_⟩
  intro failure found
  cases earlier : scan.terminalFailure with
  | some other =>
    rw [earlier] at found
    exact scanned.failure failure (earlier.trans found)
  | none =>
    rw [earlier] at found
    cases found
    exact ⟨List.mem_map_of_mem member, failed⟩

theorem scanStep (member : step ∈ definition.steps) {next : Scan}
    (scannedStep : scanStep inst now scan step = .ok next) :
    Scanned inst definition now (steps ++ [step]) next := by
  obtain ⟨state, found, continued⟩ := bind_eq_ok.mp scannedStep
  obtain ⟨ready, readyOk, continued⟩ := bind_eq_ok.mp continued
  have sameState := stepState_eq_ok found
  have waiting (status : state.status = .pending ∨ state.status = .ready)
      (continued : (pure (if ready then { scan with
        candidates := scan.candidates ++ [(step.stepId, state.attempts + 1)] } else scan) :
          Except Exn Scan) = .ok next) :
      Scanned inst definition now (steps ++ [step]) next := by
    cases continued
    cases ready with
    | false => exact scanned.skip
    | true =>
      rw [← sameState] at status ⊢
      exact scanned.add ⟨member, rfl, .inl ⟨status, depsDone_eq_true readyOk⟩⟩
  cases status : state.status with
  | pending =>
    rw [status] at continued
    exact waiting (.inl status) continued
  | ready =>
    rw [status] at continued
    exact waiting (.inr status) continued
  | failed =>
    rw [status] at continued
    rw [← sameState] at status
    cases retry : state.nextRetryAt with
    | none =>
      simp only [retry] at continued
      cases continued
      rw [← sameState] at retry
      exact scanned.fail member ⟨status, retry⟩ state
    | some retryAt =>
      simp only [retry] at continued
      by_cases due : retryAt ≤ now
      · rw [if_pos due] at continued
        cases continued
        rw [← sameState] at retry ⊢
        exact scanned.add ⟨member, rfl, .inr ⟨status, retryAt, due, retry⟩⟩
      · rw [if_neg due] at continued
        cases continued
        exact ⟨scanned.skip.sublist, scanned.candidates, scanned.failure⟩
  | _ =>
    rw [status] at continued
    cases continued
    exact scanned.skip

theorem scanSteps {after : List WorkflowStep} (members : ∀ step ∈ after, step ∈ definition.steps)
    {final : Scan} (scannedSteps : scanSteps inst now after scan = .ok final) :
    Scanned inst definition now (steps ++ after) final := by
  induction after generalizing steps scan with
  | nil =>
    cases scannedSteps
    rwa [List.append_nil]
  | cons step rest ih =>
    obtain ⟨next, nextOk, restOk⟩ := bind_eq_ok.mp scannedSteps
    rw [List.append_cons]
    exact ih (scanned.scanStep (members step List.mem_cons_self) nextOk)
      (fun other member => members other (List.mem_cons_of_mem _ member)) restOk

end Scanned

/-- What the scan of the whole definition has found. -/
theorem scanned_steps {scan : Scan} (found : scanSteps inst now definition.steps {} = .ok scan) :
    Scanned inst definition now definition.steps scan := by
  have start : Scanned inst definition now [] {} := by
    constructor
    case sublist => exact List.Sublist.refl _
    case candidates => exact List.forall_mem_nil _
    case failure => exact fun _ found => absurd found.symm (Option.some_ne_none _)
  exact start.scanSteps (fun _ member => member) found

/-! ## Approvals, settlement and dispatch -/

/-- The step may not run before it has been approved. -/
def NeedsApproval (inst : WorkflowInstance) (definition : WorkflowDefinition) (stepId : String) :
    Prop :=
  ∃ step ∈ definition.steps, step.stepId = stepId ∧ step.requiresApproval = true ∧
    stepId ∉ openEscalations inst ∧ approvalGranted inst stepId = false

theorem approvalNeeded_eq_ok {candidates : List (String × Nat)} {needed : List String}
    (found : approvalNeeded inst definition candidates = .ok needed) :
    needed.Sublist (candidates.map Prod.fst) ∧
      (∀ stepId ∈ needed, NeedsApproval inst definition stepId) ∧
      ∀ candidate ∈ candidates, candidate.1 ∉ needed →
        ¬ NeedsApproval inst definition candidate.1 := by
  induction candidates generalizing needed with
  | nil =>
    cases found
    simp
  | cons candidate rest ih =>
    obtain ⟨stepId, attempt⟩ := candidate
    obtain ⟨step, stepOk, continued⟩ := bind_eq_ok.mp found
    obtain ⟨others, othersOk, continued⟩ := bind_eq_ok.mp continued
    obtain ⟨sublist, needs, complete⟩ := ih othersOk
    obtain ⟨member, sameId⟩ := stepOf_eq_ok stepOk
    by_cases missing : (step.requiresApproval && stepId ∉ openEscalations inst &&
        !approvalGranted inst stepId) = true
    · rw [if_pos missing] at continued
      cases continued
      simp only [Bool.and_eq_true, decide_eq_true_eq, Bool.not_eq_true'] at missing
      refine ⟨sublist.cons_cons _, ?_, ?_⟩
      · intro other otherMember
        rcases List.mem_cons.mp otherMember with rfl | otherMember
        · exact ⟨step, member, sameId, missing.1.1, missing.1.2, missing.2⟩
        · exact needs other otherMember
      · intro other otherMember unneeded
        rcases List.mem_cons.mp otherMember with rfl | otherMember
        · exact absurd List.mem_cons_self unneeded
        · exact complete other otherMember fun member =>
            unneeded (List.mem_cons_of_mem _ member)
    · rw [if_neg missing] at continued
      cases continued
      refine ⟨sublist.cons _, needs, ?_⟩
      intro other otherMember unneeded
      rcases List.mem_cons.mp otherMember with rfl | otherMember
      · rintro ⟨same, sameMember, sameStepId, gated, closed, ungranted⟩
        have equal := definition.eq_of_stepId_eq sameMember member (sameStepId.trans sameId.symm)
        subst equal
        apply missing
        simp [gated, closed, ungranted]
      · exact complete other otherMember unneeded

theorem allSettled_eq_true {steps : List WorkflowStep}
    (settled : allSettled inst steps = .ok true) :
    ∀ step ∈ steps, isSettled (inst.stepOr step.stepId).status = true := by
  induction steps with
  | nil => simp
  | cons first rest ih =>
    obtain ⟨state, found, continued⟩ := bind_eq_ok.mp settled
    rw [← stepState_eq_ok found] at continued
    by_cases firstSettled : isSettled (inst.stepOr first.stepId).status = true
    · rw [if_pos firstSettled] at continued
      simpa [firstSettled] using ih continued
    · rw [if_neg firstSettled] at continued
      cases continued

/-- What a plan for a running instance promises. -/
structure SoundPlan (inst : WorkflowInstance) (definition : WorkflowDefinition) (now : Time)
    (plan : Plan) : Prop where
  dispatch : ∀ candidate ∈ plan.dispatch, IsCandidate inst definition now candidate ∧
    candidate.1 ∉ openEscalations inst ∧ ¬ NeedsApproval inst definition candidate.1
  distinct : (plan.dispatch.map Prod.fst).Nodup
  capacity : plan.dispatch.length ≤ definition.maxConcurrentSteps - inst.countSteps .running
  budget : plan.dispatch ≠ [] → budgetOut inst = false
  approvals : ∀ stepId ∈ plan.approvalNeeded, NeedsApproval inst definition stepId ∧
    ∃ attempt, IsCandidate inst definition now (stepId, attempt)
  approvalsDistinct : plan.approvalNeeded.Nodup
  failure : ∀ failure, plan.terminalFailure = some failure →
    failure.1 ∈ definition.stepIds ∧ FailedForGood inst failure.1
  settled : plan.allSettled = true →
    ∀ step ∈ definition.steps, isSettled (inst.stepOr step.stepId).status = true

theorem SoundPlan.known_dispatch {plan : Plan} (sound : SoundPlan inst definition now plan) :
    ∀ candidate ∈ plan.dispatch, candidate.1 ∈ definition.stepIds := by
  intro candidate listed
  obtain ⟨⟨step, same, candidateOk⟩, _⟩ := sound.dispatch candidate listed
  exact same ▸ List.mem_map_of_mem candidateOk.member

theorem SoundPlan.known_approvals {plan : Plan} (sound : SoundPlan inst definition now plan) :
    ∀ stepId ∈ plan.approvalNeeded, stepId ∈ definition.stepIds := by
  intro stepId listed
  obtain ⟨⟨step, member, same, _⟩, _⟩ := sound.approvals stepId listed
  exact same ▸ List.mem_map_of_mem member

private theorem soundPlan_planDispatch {scan : Scan} {plan : Plan}
    (scanned : Scanned inst definition now definition.steps scan)
    (approved : ∀ candidate ∈ scan.candidates, ¬ NeedsApproval inst definition candidate.1)
    (planned : planDispatch inst definition scan = .ok plan) :
    SoundPlan inst definition now plan := by
  unfold planDispatch at planned
  dsimp only at planned
  generalize dispatchableOk : (scan.candidates.filter fun candidate =>
    candidate.1 ∉ openEscalations inst) = dispatchable at planned
  cases blocked : dispatchable.head?.filter fun _ => budgetOut inst with
  | some step =>
    rw [blocked] at planned
    cases planned
    constructor <;> simp
  | none =>
    rw [blocked] at planned
    by_cases idle : (dispatchable.take (definition.maxConcurrentSteps -
        inst.countSteps .running)).isEmpty && scan.retryWakeup.isNone &&
          inst.countSteps .running = 0
    · simp only [idle, if_true] at planned
      obtain ⟨settled, settledOk, planned⟩ := bind_eq_ok.mp planned
      cases planned
      constructor
      case settled =>
        rintro rfl
        exact allSettled_eq_true settledOk
      all_goals simp
    · simp only [idle] at planned
      cases planned
      have sublist : (dispatchable.take (definition.maxConcurrentSteps -
          inst.countSteps .running)).Sublist dispatchable := List.take_sublist _ _
      have filtered : dispatchable.Sublist scan.candidates := by
        rw [← dispatchableOk]
        exact List.filter_sublist
      constructor
      case dispatch =>
        intro candidate member
        have inDispatchable := sublist.subset member
        have inCandidates := filtered.subset inDispatchable
        rw [← dispatchableOk, List.mem_filter] at inDispatchable
        exact ⟨scanned.candidates candidate inCandidates, by simpa using inDispatchable.2,
          approved candidate inCandidates⟩
      case distinct =>
        exact (definition.nodup_stepIds.sublist scanned.sublist).sublist
          ((sublist.trans filtered).map Prod.fst)
      case capacity => exact List.length_take_le _ _
      case budget =>
        intro nonempty
        cases dispatchable with
        | nil => exact absurd List.take_nil nonempty
        | cons first rest => simpa [Option.filter] using blocked
      all_goals simp

/-- A plan keeps its promises. -/
theorem soundPlan {plan : Plan} (planned : Engine.plan inst definition now = .ok plan) :
    SoundPlan inst definition now plan := by
  obtain ⟨scan, scanOk, continued⟩ := bind_eq_ok.mp planned
  have scanned := scanned_steps scanOk
  cases terminal : scan.terminalFailure with
  | some failure =>
    rw [terminal] at continued
    cases continued
    constructor
    case failure =>
      rintro other found
      cases found
      exact scanned.failure failure terminal
    all_goals simp
  | none =>
    rw [terminal] at continued
    obtain ⟨needed, neededOk, continued⟩ := bind_eq_ok.mp continued
    obtain ⟨sublist, needs, complete⟩ := approvalNeeded_eq_ok neededOk
    by_cases empty : needed = []
    · subst empty
      refine soundPlan_planDispatch scanned ?_ continued
      exact fun candidate member => complete candidate member List.not_mem_nil
    · rw [if_neg (by simpa using empty)] at continued
      cases continued
      constructor
      case approvals =>
        intro stepId member
        obtain ⟨candidate, candidateMember, rfl⟩ := List.mem_map.mp (sublist.subset member)
        exact ⟨needs _ member, candidate.2, scanned.candidates candidate candidateMember⟩
      case approvalsDistinct =>
        exact (definition.nodup_stepIds.sublist scanned.sublist).sublist sublist
      all_goals simp

end AgentForge.Engine
