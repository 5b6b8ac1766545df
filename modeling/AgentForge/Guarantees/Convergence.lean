import AgentForge.Guarantees.Interruptions
import AgentForge.Refinement.Iterations

/-!
# The scheduler makes progress

A plan for an instance that nothing holds always finds something to do, so the
driver never idles on unfinished work.  And the loop of a drive ends: its
iterations are bounded by the attempts that the steps may still make.
-/

namespace AgentForge.Guarantees

open Domain Engine Events Library Protocol Refinement

/-! ## Plans -/

/-- A step that nothing holds: it is not running, waiting for a decision or
undone. -/
def isFree : StepStatus → Bool
  | .pending | .ready | .failed | .completed | .skipped => true
  | _ => false

private theorem unheld_of_free {definition : WorkflowDefinition} {inst : WorkflowInstance}
    (stored : Stored definition inst)
    (free : ∀ state ∈ inst.stepStates.values, isFree state.status = true)
    (resolved : ∀ ref ∈ inst.escalations, ref.resolved = true) : Unheld definition inst := by
  have freeStep : ∀ stepId ∈ definition.stepIds, isFree (inst.stepOr stepId).status = true := by
    intro stepId member
    obtain ⟨state, found⟩ := Dict.mem_keys_iff_get?.mp (stored stepId member)
    rw [WorkflowInstance.stepOr_of_get? found]
    exact free state (Dict.mem_values_iff.mpr ⟨stepId, found⟩)
  have notIs : ∀ status, isFree status = false → ∀ stepId ∈ definition.stepIds,
      (inst.stepOr stepId).status ≠ status := by
    intro status held stepId member same
    have freeOne := freeStep stepId member
    rw [same, held] at freeOne
    cases freeOne
  constructor
  case counted =>
    rw [WorkflowInstance.countSteps, List.countP_eq_zero]
    intro state member
    have freeOne := free state member
    cases status : state.status <;> simp [status, isFree] at freeOne ⊢
  case running => exact notIs .running rfl
  case waiting => exact notIs .waitingApproval rfl
  case compensated => exact notIs .compensated rfl
  case escalations =>
    unfold openEscalations
    rw [List.map_eq_nil_iff, List.filter_eq_nil_iff]
    intro ref member
    simp [resolved ref member]

/-- The planner never idles on an instance that nothing holds, and it sees that
everything is settled exactly when it is. -/
theorem plan_never_idle (definition : WorkflowDefinition) (inst : WorkflowInstance) (now : Time)
    (stored : Stored definition inst)
    (free : ∀ state ∈ inst.stepStates.values, isFree state.status = true)
    (resolved : ∀ ref ∈ inst.escalations, ref.resolved = true) :
    ∃ plan, Engine.plan inst definition now = .ok plan ∧
      (plan.budgetBlockedStep ≠ none ∨ plan.approvalNeeded ≠ [] ∨ plan.terminalFailure ≠ none ∨
        plan.dispatch ≠ [] ∨ (∃ wakeup, plan.retryWakeup = some wakeup ∧ now < wakeup) ∨
        plan.allSettled = true) ∧
      (plan.allSettled = true ↔ ∀ step ∈ definition.steps,
        (inst.stepOr step.stepId).status = .completed ∨
          (inst.stepOr step.stepId).status = .skipped) := by
  have unheld := unheld_of_free stored free resolved
  obtain ⟨plan, planned⟩ := exists_plan stored now
  refine ⟨plan, planned, ?_, ?_, ?_⟩
  · rcases plan_acts stored unheld planned with
      blocked | approvals | failed | dispatched | settled | wakes
    · exact .inl blocked
    · exact .inr (.inl approvals)
    · exact .inr (.inr (.inl failed))
    · exact .inr (.inr (.inr (.inl dispatched)))
    · exact .inr (.inr (.inr (.inr (.inr settled))))
    · obtain ⟨wakeup, found⟩ := Option.ne_none_iff_exists'.mp wakes
      exact .inr (.inr (.inr (.inr (.inl ⟨wakeup, found, lt_of_retryWakeup planned found⟩))))
  · intro settled step member
    have done := (soundPlan planned).settled settled step member
    have intact := unheld.compensated step.stepId (List.mem_map_of_mem member)
    cases status : (inst.stepOr step.stepId).status <;> simp [status, isSettled] at done intact ⊢
  · intro finished
    refine allSettled_of_done stored unheld.counted (fun step member => ?_) planned
    rcases finished step member with completed | skipped
    · rw [completed]
      rfl
    · rw [skipped]
      rfl

/-- A report is collected, checked and rendered, and then published. -/
def reportWorkflow : WorkflowDefinition where
  workflowId := "report"
  version := "1.0.0"
  steps :=
    [{ stepId := "collect", agentType := "collector" },
      { stepId := "check", agentType := "checker", dependencies := ["collect"] },
      { stepId := "render", agentType := "renderer", dependencies := ["collect"] },
      { stepId := "publish", agentType := "publisher", dependencies := ["check", "render"] }]
  valid := rfl

/-- The check was skipped, and the rendering waits for its second attempt. -/
def renderingFailed : WorkflowInstance where
  instanceId := "instance"
  tenantId := "tenant"
  workflowId := "report"
  workflowVersion := "1.0.0"
  status := .running
  stepStates := Dict.ofList
    [("collect", { stepId := "collect", status := .completed, attempts := 1 }),
      ("check", { stepId := "check", status := .skipped }),
      ("render", { stepId := "render", status := .failed, attempts := 1, nextRetryAt := some 50 }),
      ("publish", { stepId := "publish" })]

/-- Before its time the plan waits for the retry, and later it dispatches it. -/
theorem plan_never_idle_renderingFailed :
    (∃ plan, Engine.plan renderingFailed reportWorkflow 20 = .ok plan ∧
      (plan.budgetBlockedStep ≠ none ∨ plan.approvalNeeded ≠ [] ∨ plan.terminalFailure ≠ none ∨
        plan.dispatch ≠ [] ∨ (∃ wakeup, plan.retryWakeup = some wakeup ∧ 20 < wakeup) ∨
        plan.allSettled = true) ∧
      (plan.allSettled = true ↔ ∀ step ∈ reportWorkflow.steps,
        (renderingFailed.stepOr step.stepId).status = .completed ∨
          (renderingFailed.stepOr step.stepId).status = .skipped)) ∧
    ((Engine.plan renderingFailed reportWorkflow 20).map Plan.retryWakeup).toOption =
      some (some 50) ∧
    ((Engine.plan renderingFailed reportWorkflow 60).map Plan.dispatch).toOption =
      some [("render", 2)] :=
  ⟨plan_never_idle reportWorkflow renderingFailed 20 (by unfold Stored; decide) (by decide)
    (by decide), by decide +kernel, by decide +kernel⟩

/-! ## The loop -/

theorem renumbers_answers (setting : Setting) : Renumbers (answers setting) := by
  rintro world next instanceId tenantId drafts version guarded wakeup count events
    (⟨failure, failed, _⟩ | ⟨_, committed⟩)
  · cases failed
  · cases committed
    exact payload_resequence _ _

/-- A drive has read its definition and its instance. -/
def Opens {Env : Type} (sem : Semantics Env Op Op.Result) (lease : Lease) (env : Env)
    (definition : WorkflowDefinition) (inst : WorkflowInstance) (read : Env) : Prop :=
  ∃ loaded, sem env (.getDefinition lease.workflowId lease.workflowVersion lease.tenantId)
      (some definition) loaded ∧
    sem loaded (.getInstance lease.instanceId lease.tenantId (some definition)) (.ok (some inst))
      read

/-- After that it has recovered the steps in flight and gone round its loop `count`
times. -/
def Rounds {Env : Type} (sem : Semantics Env Op Op.Result) (config : Config) (lease : Lease)
    (env : Env) (definition : WorkflowDefinition) (inst : WorkflowInstance) (count : Nat)
    (later : WorkflowInstance) (final : Env) : Prop :=
  ∃ read recovered start, Opens sem lease env definition inst read ∧
    Program.Steps sem read (recoverInFlight definition inst) start (.done recovered) ∧
    Iterated sem config definition lease count recovered start later final

/-- What a drive raises before the first or in one of its iterations. -/
inductive RaisedInside {Env : Type} (sem : Semantics Env Op Op.Result) (config : Config)
    (lease : Lease) (env : Env) : Env → Exn → Prop
  | missing {final : Env} :
      sem env (.getDefinition lease.workflowId lease.workflowVersion lease.tenantId) none final →
      RaisedInside sem config lease env final (.configurationError
        ("definition " ++ lease.workflowId ++ " v" ++ lease.workflowVersion ++ " missing"))
  | unread {definition : WorkflowDefinition} {loaded final : Env} {failure : Exn} :
      sem env (.getDefinition lease.workflowId lease.workflowVersion lease.tenantId)
        (some definition) loaded →
      sem loaded (.getInstance lease.instanceId lease.tenantId (some definition)) (.error failure)
        final →
      RaisedInside sem config lease env final failure
  | recovering {definition : WorkflowDefinition} {inst : WorkflowInstance} {read final : Env}
      {failure : Exn} : Opens sem lease env definition inst read →
      Program.Steps sem read (recoverInFlight definition inst) final (.raise failure) →
      RaisedInside sem config lease env final failure
  | iterating {definition : WorkflowDefinition} {inst later : WorkflowInstance} {count : Nat}
      {before final : Env} {failure : Exn} : count < maxDriveIterations →
      Rounds sem config lease env definition inst count later before →
      Program.Steps sem before (runTurn config definition lease later) final (.raise failure) →
      RaisedInside sem config lease env final failure

/-- A drive makes at most two iterations more than its steps have attempts left:
while the loop is in iteration `count + 1`, it has gone round `count` times.  So
if it may make that many, whatever a drive raises is raised in an iteration or
before the first of them, never because they were used up. -/
theorem drive_converges {Env : Type} {sem : Semantics Env Op Op.Result}
    (renumbers : Renumbers sem) (config : Config) (lease : Lease) (env : Env) :
    (∀ definition inst count later final,
      Rounds sem config lease env definition inst count later final →
        count + 1 ≤ 2 + remainingAttempts definition inst) ∧
    ((∀ definition inst read, Opens sem lease env definition inst read →
        2 + remainingAttempts definition inst ≤ maxDriveIterations) → ∀ final failure,
      Program.Steps sem env (drive config lease) final (.raise failure) →
        RaisedInside sem config lease env final failure) := by
  have bounded : ∀ definition inst count later final,
      Rounds sem config lease env definition inst count later final →
        count + 1 ≤ 2 + remainingAttempts definition inst := by
    rintro definition inst count later final ⟨read, recovered, start, _, recovery, iterated⟩
    have left : remainingAttempts definition recovered = remainingAttempts definition inst :=
      (returns_recoverInFlight renumbers read).steps recovery
    have spent := iterated.turnsLeft_le renumbers
    have positive := one_le_turnsLeft definition later
    have atMost := turnsLeft_le definition recovered
    omega
  refine ⟨bounded, fun enough final failure run => ?_⟩
  cases run with
  | @step _ loaded _ _ found _ _ loads run =>
    cases found with
    | none =>
      cases run
      exact .missing loads
    | some definition =>
      cases run with
      | @step _ read _ _ answer _ _ reads run =>
        rcases answer with failed | (_ | inst)
        · cases run
          exact .unread loads reads
        · cases run
        · have opens : Opens sem lease env definition inst read := ⟨loaded, loads, reads⟩
          obtain ⟨raised, middle, inside, handled⟩ := Program.raise_of_attempt run
          split at handled
          · cases handled
          · cases handled
            rcases Program.raise_of_bind inside with
              recovering | ⟨recovered, start, recovery, loop⟩
            · exact .recovering opens recovering
            · rcases raise_of_runLoop loop with
                ⟨count, later, before, fewer, iterated, turn⟩ | ⟨later, exhausted⟩
              · exact .iterating fewer ⟨read, recovered, start, opens, recovery, iterated⟩ turn
              · have tooMany := bounded definition inst _ later final
                  ⟨read, recovered, start, opens, recovery, exhausted⟩
                have atMost := enough definition inst read opens
                omega

/-- A worker that writes drafts and has no runner that sends them. -/
def writerDrive : Config × Lease :=
  ({ registry := fun agentType =>
      if agentType = "writer" then some fun _ => .done { output := Dict.empty } else none
     digestMessages := fun _ _ => "" },
    { instanceId := "instance", tenantId := "tenant", workflowId := "letter",
      workflowVersion := "1.0.0", workerId := "writer" })

/-- A worker has died while it was writing the draft. -/
def draftStarted : World :=
  executeAll letterSetting {} [(12, .drive writerDrive.1 writerDrive.2)]
    (.opened letterSetting none)

/-- The statuses of the steps of a letter. -/
def letterStatuses (inst : WorkflowInstance) : List StepStatus :=
  letterWorkflow.stepIds.map fun stepId => (inst.stepOr stepId).status

/-- The drive recovers the draft and goes round its loop once. -/
def letterRound (inst : WorkflowInstance) : Except Exn Turn × World :=
  perform letterSetting {}
    (recoverInFlight letterWorkflow inst >>= runTurn writerDrive.1 letterWorkflow writerDrive.2)
    draftStarted

/-- The statuses after an iteration that another one follows. -/
def letterAfter : Except Exn Turn → Option (List StepStatus)
  | .ok (.again later) => some (letterStatuses later)
  | _ => none

/-- The draft is written again in the first iteration, and nobody can send it in the
second. -/
theorem drive_converges_draftStarted :
    ∃ inst later before final failure, letterStatuses inst = [.running, .pending] ∧
      letterStatuses later = [.completed, .pending] ∧
      Rounds (answers letterSetting) writerDrive.1 writerDrive.2 draftStarted letterWorkflow inst 1
        later before ∧
      1 + 1 ≤ 2 + remainingAttempts letterWorkflow inst ∧
      Program.Steps (answers letterSetting) draftStarted
        (drive writerDrive.1 writerDrive.2) final (.raise failure) ∧
      RaisedInside (answers letterSetting) writerDrive.1 writerDrive.2 draftStarted final
        failure := by
  have converges := drive_converges (renumbers_answers letterSetting) writerDrive.1 writerDrive.2
    draftStarted
  obtain ⟨inst, folded, facts⟩ := exists_ok_of_map (by
    decide +kernel : (fold draftStarted.log (some letterWorkflow)).toOption.map (fun inst =>
      (letterStatuses inst, remainingAttempts letterWorkflow inst,
        letterAfter (letterRound inst).1)) =
        some ([.running, .pending], 7, some [.completed, .pending]))
  obtain ⟨statuses, left, after⟩ : letterStatuses inst = [.running, .pending] ∧
      remainingAttempts letterWorkflow inst = 7 ∧
      letterAfter (letterRound inst).1 = some [.completed, .pending] := by
    simpa only [Prod.mk.injEq] using facts
  have reads : draftStarted.read letterSetting "instance" "tenant" (some letterWorkflow) =
      .ok (some inst) := by
    rw [World.read, folded]
    rfl
  have round : ∃ recovered start later before,
      Program.Steps (answers letterSetting) draftStarted (recoverInFlight letterWorkflow inst) start
        (.done recovered) ∧
      Program.Steps (answers letterSetting) start
        (runTurn writerDrive.1 letterWorkflow writerDrive.2 recovered) before
          (.done (.again later)) ∧
      letterStatuses later = [.completed, .pending] := by
    obtain ⟨later, again, written⟩ : ∃ later, (letterRound inst).1 = .ok (.again later) ∧
        letterStatuses later = [.completed, .pending] := by
      revert after
      rcases (letterRound inst).1 with failure | (report | later)
      · exact fun after => by cases after
      · exact fun after => by cases after
      · exact fun after => ⟨later, rfl, Option.some.inj after⟩
    obtain ⟨recovered, start, first, second⟩ :=
      Program.evaluate_bind_eq_ok (Prod.ext again rfl : letterRound inst = (_, _))
    have recovery := steps_perform (World.answers_answer letterSetting {})
      (recoverInFlight letterWorkflow inst) draftStarted
    have turn := steps_perform (World.answers_answer letterSetting {})
      (runTurn writerDrive.1 letterWorkflow writerDrive.2 recovered) start
    rw [perform, first] at recovery
    rw [perform, second] at turn
    exact ⟨recovered, start, later, _, recovery, turn, written⟩
  obtain ⟨recovered, start, later, before, recovery, turn, written⟩ := round
  have rounds : Rounds (answers letterSetting) writerDrive.1 writerDrive.2 draftStarted
      letterWorkflow inst 1 later before :=
    ⟨draftStarted, recovered, start, ⟨draftStarted, ⟨.inr rfl, rfl⟩, reads.symm, rfl⟩, recovery,
      .again turn (.refl _ _)⟩
  have raises : ∃ failure, (perform letterSetting {} (drive writerDrive.1 writerDrive.2)
      draftStarted).1 = .error failure := by
    have unsent : (perform letterSetting {} (drive writerDrive.1 writerDrive.2)
        draftStarted).1.isOk = false := by decide +kernel
    revert unsent
    rcases (perform letterSetting {} (drive writerDrive.1 writerDrive.2) draftStarted).1 with
      failure | report
    · exact fun _ => ⟨failure, rfl⟩
    · exact fun unsent => by cases unsent
  obtain ⟨failure, raised⟩ := raises
  have steps := steps_perform (World.answers_answer letterSetting {})
    (drive writerDrive.1 writerDrive.2) draftStarted
  rw [raised] at steps
  refine ⟨inst, later, before, _, failure, statuses, written, rounds,
    converges.1 _ _ _ _ _ rounds, steps, converges.2 ?_ _ failure steps⟩
  rintro definition other read ⟨loaded, ⟨missing | known, rfl⟩, found, rfl⟩
  · cases missing
  · cases known
    cases found.trans reads
    change 2 + remainingAttempts letterWorkflow inst ≤ maxDriveIterations
    rw [left]
    decide

end AgentForge.Guarantees
