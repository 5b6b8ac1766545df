import AgentForge.Refinement.Alone
import Mathlib.Data.List.Induction

/-!
# Dead letters

A workflow is moved to `DEAD_LETTERED` in one transaction and its entry is
recorded in another; a requeue appends its event in one and resolves the entry
in another.  What holds between the entries and the journal therefore depends on
where workers die and on which entries are requeued.
-/

namespace AgentForge.Guarantees

open Domain Events Library Engine Protocol Refinement
open Program

variable {setting : Setting} {world next : World} {residual : Code (Option DriveReport)}
  {log : List Event} {requeuedBy : String} {actor : Actor} {inst : WorkflowInstance} {dlqId : Nat}

/-! ## A requeue alone -/

/-- The operations of a requeue that is alone, in terms of the world it was
called in. -/
def Requeuing (setting : Setting) (start : World) (dlqId : Nat) (world : World) : Op → Prop
  | .appendNew _ _ drafts _ _ _ => Idle setting start world ∧
      ∃ row requeuedBy, start.deadLetters[dlqId]? = some row ∧
        drafts.map Event.payload = [.workflowRequeued row.stepId requeuedBy (some dlqId)]
  | .resolveDeadLetter _ _ => (replay world.log).status = .running
  | .recordDeadLetter _ => False
  | _ => Idle setting start world

/-- The status after a requeue. -/
theorem status_of_requeued {log batch : List Event} {stepId : Option String} {dlqId : Option Nat}
    (single : batch.map Event.payload = [.workflowRequeued stepId requeuedBy dlqId]) :
    (replay (log ++ batch)).status = .running := by
  obtain ⟨event, rfl, payload⟩ := List.map_eq_singleton_iff.mp single
  rw [replay_concat]
  change ((replay log).advance event.payload).status = .running
  rw [payload]
  cases stepId <;> rfl

theorem safe_requeue (setting : Setting) (start : World) (dlqId : Nat) (requeuedBy : String) :
    Safe (answers setting) (Requeuing setting start dlqId) (fun _ _ => True) (fun _ _ => True)
      ((Actor.requeue dlqId requeuedBy).program setting) start := by
  refine Safe.bind ?_ fun _ _ (_ : True) => trivial
  refine safe_call_bind.mpr ⟨.refl setting start, ?_⟩
  rintro found _ ⟨rfl, rfl⟩
  dsimp only
  split
  · trivial
  · next _ row filtered =>
    obtain ⟨stored, _⟩ := Option.filter_eq_some_iff.mp filtered
    split
    · trivial
    · refine safe_call_bind.mpr ⟨.refl setting _, ?_⟩
      rintro found _ ⟨_, rfl⟩
      refine safe_lift_bind (fun inst _ => ?_) fun _ _ => trivial
      cases inst with
      | none => trivial
      | some inst =>
        dsimp only
        split
        · trivial
        · refine safe_call_bind.mpr ⟨.refl setting _, ?_⟩
          rintro eventId drawn ⟨fresh, rfl⟩
          refine safe_call_bind.mpr ⟨⟨_, _, rfl, fun _ => le_rfl,
            fun _ member => List.mem_cons_of_mem _ member⟩, ?_⟩
          rintro occurredAt timed ⟨later, rfl⟩
          refine safe_call_bind.mpr ⟨⟨⟨_, _, rfl, later,
            fun _ member => List.mem_cons_of_mem _ member⟩, row, requeuedBy, stored, rfl⟩, ?_⟩
          rintro result next (⟨failure, rfl, rfl⟩ | ⟨committed, rfl⟩)
          · trivial
          · refine safe_lift_bind (fun _ _ => ?_) fun _ _ => trivial
            refine safe_call_bind.mpr ⟨?_, fun _ _ _ => trivial⟩
            obtain ⟨_, _, _, _, _, rfl⟩ := commit_eq_ok committed
            exact status_of_requeued (payload_resequence _ _)

/-! ## Requeues of current entries -/

/-- The event requeues this step. -/
def revivesStep : Payload → String → Prop
  | .workflowRequeued (some stepId) _ _, other => stepId = other
  | _, _ => False

theorem revives_of_revivesStep {payload : Payload} {stepId : String}
    (revived : revivesStep payload stepId) : revives payload := by
  cases payload with
  | workflowRequeued => trivial
  | _ => exact revived.elim

/-- Every requeue of a step found it failed. -/
def RevivesFailed (log : List Event) : Prop :=
  EachAt (fun before event => ∀ stepId, revivesStep event.payload stepId →
    ((replay before).steps stepId).status = .failed) log

/-- The step of an entry had failed at the version of the entry. -/
def FailedAt (log : List Event) (row : DeadLetter) : Prop :=
  ∃ stepId, row.stepId = some stepId ∧ row.atVersion ≤ log.length ∧
    ((replay (log.take row.atVersion)).steps stepId).status = .failed

theorem FailedAt.grow {row : DeadLetter} (failedAt : FailedAt log row) (batch : List Event) :
    FailedAt (log ++ batch) row := by
  obtain ⟨stepId, named, bound, failed⟩ := failedAt
  refine ⟨stepId, named, by simp [Nat.le_add_right_of_le bound], ?_⟩
  rwa [List.take_append_of_le_length bound]

theorem RevivesFailed.append {log batch : List Event} (revived : RevivesFailed log)
    (none : ∀ event ∈ batch, ¬ revives event.payload) : RevivesFailed (log ++ batch) := by
  induction batch using List.reverseRecOn with
  | nil => rwa [List.append_nil]
  | append_singleton batch event ih =>
    rw [← List.append_assoc]
    refine eachAt_concat.mpr ⟨ih fun other member => none other (by simp [member]), ?_⟩
    intro stepId found
    exact absurd (revives_of_revivesStep found) (none event (by simp))

/-- What is known of the entries and of past requeues. -/
structure Accounted (world : World) : Prop where
  entries : ∀ row ∈ world.deadLetters, FailedAt world.log row
  revived : RevivesFailed world.log

theorem Accounted.append {batch : List Event} (accounted : Accounted world)
    (revived : RevivesFailed (world.log ++ batch))
    (log : next.log = world.log ++ batch) (rows : next.deadLetters = world.deadLetters) :
    Accounted next := by
  refine ⟨fun row member => ?_, by rwa [log]⟩
  rw [log]
  exact (accounted.entries row (rows ▸ member)).grow batch

theorem Accounted.same (accounted : Accounted world) (log : next.log = world.log)
    (rows : next.deadLetters = world.deadLetters) : Accounted next :=
  ⟨by rw [log, rows]; exact accounted.entries, by rw [log]; exact accounted.revived⟩

/-- The entry that is requeued was recorded at the current version. -/
def requeuesCurrent (world : World) : Actor → Prop
  | .requeue dlqId _ => ∀ row ∈ world.deadLetters[dlqId]?, row.atVersion = world.log.length
  | _ => True

instance (world : World) : DecidablePred (requeuesCurrent world)
  | .requeue dlqId _ => inferInstanceAs
      (Decidable (∀ row ∈ world.deadLetters[dlqId]?, row.atVersion = world.log.length))
  | .drive _ _ | .pause _ | .resume _ | .abort _ | .resolve _ | .expireDue _ _ => isTrue trivial

private theorem not_revives_of_appends {payloads : List Payload}
    (others : ∀ dlqId requeuedBy, actor ≠ .requeue dlqId requeuedBy)
    (appends : Appends actor inst payloads) : ∀ payload ∈ payloads, ¬ revives payload := by
  have moving {target : WorkflowStatus} (moves : Moves target inst payloads) :
      ∀ payload ∈ payloads, ¬ revives payload := by
    obtain ⟨reason, rfl⟩ := moves.single
    simp [revives]
  cases actor with
  | drive config lease =>
    intro payload member reviving
    have isDriven := driven_of_steers (appends.1 payload member)
    cases payload with
    | workflowRequeued => exact isDriven
    | _ => exact reviving
  | pause | resume | abort => exact moving appends
  | resolve =>
    obtain ⟨_, row, rfl⟩ := appends
    exact fun payload member => (sparing_of_mem_resolvePayloads member).2
  | expireDue =>
    obtain ⟨_, row, rfl⟩ := appends
    exact fun payload member => (sparing_of_mem_expiryPayloads member).2
  | requeue dlqId requeuedBy => exact absurd rfl (others dlqId requeuedBy)

/-- The entries and the requeues stay accounted for while another actor is at
work. -/
private theorem accounted_of_steps (others : ∀ dlqId requeuedBy, actor ≠ .requeue dlqId requeuedBy)
    (accounted : Accounted world)
    (steps : Steps (answers setting) world (actor.program setting) next residual) :
    Accounted next := by
  have kept (world : World) (grasp : Hand) (op : Op) (response : op.Result) (next : World)
      (accounted : Accounted world) (atTip : AtTip world.log grasp)
      (based : Based actor grasp op) (answered : answers setting world op response next) :
      Accounted next := by
    cases change_of_answers answered with
    | none sameLog _ _ _ sameRows => exact accounted.same sameLog sameRows
    | called => exact accounted.same rfl rfl
    | @noted mark => cases mark <;> exact accounted.same rfl rfl
    | committed committed =>
      obtain ⟨inst, _, append⟩ := committed_of_commit atTip.abreast based.grounded committed
      have none := not_revives_of_appends others append.appends
      obtain rfl := append.next
      exact accounted.append (accounted.revived.append fun event member =>
        none _ (List.mem_map_of_mem member)) rfl rfl
    | recorded =>
      refine ⟨fun other member => ?_, accounted.revived⟩
      rcases List.mem_append.mp member with old | new
      · exact accounted.entries other old
      · obtain ⟨inst, stepId, reason, held, _, failed, rfl⟩ := based.grounded
        rw [List.mem_singleton.mp new]
        have folded := atTip inst held
        have version : inst.version = world.log.length := version_of_fold folded
        refine ⟨stepId, rfl, version.le, ?_⟩
        change ((replay (world.log.take inst.version)).steps stepId).status = .failed
        rw [version, List.take_length, ← view_of_fold folded]
        exact failed
    | @resolved dlqId =>
      obtain ⟨requeuedBy, isRequeue⟩ := based.grounded
      exact absurd isRequeue (others dlqId requeuedBy)
  obtain ⟨_, holds, _⟩ := @exists_grasp_of_steps setting world next actor
    (answers setting) (fun _ _ _ _ answered => answered) (fun world _ => Accounted world) kept
      residual steps accounted
  exact holds

/-- They stay accounted for when a current entry is requeued. -/
private theorem accounted_of_requeue (accounted : Accounted world)
    (current : requeuesCurrent world (.requeue dlqId requeuedBy))
    (steps : Steps (answers setting) world ((Actor.requeue dlqId requeuedBy).program setting) next
      residual) : Accounted next := by
  refine (safe_requeue setting world dlqId requeuedBy).preserves ?_ steps accounted
  intro start op response next accounted requeuing answered
  cases change_of_answers answered with
  | none sameLog _ _ _ sameRows => exact accounted.same sameLog sameRows
  | called => exact accounted.same rfl rfl
  | @noted mark => cases mark <;> exact accounted.same rfl rfl
  | committed committed =>
    obtain ⟨idle, row, requeuedBy, stored, single⟩ := requeuing
    obtain ⟨_, _, _, _, _, rfl⟩ := commit_eq_ok committed
    refine accounted.append ?_ rfl rfl
    rw [← payload_resequence] at single
    obtain ⟨event, isSingle, payload⟩ := List.map_eq_singleton_iff.mp single
    rw [isSingle]
    refine eachAt_concat.mpr ⟨accounted.revived, fun stepId found => ?_⟩
    have rows : start.deadLetters = world.deadLetters := by
      obtain ⟨_, _, rfl, _⟩ := idle
      rfl
    obtain ⟨failedStep, named, _, failed⟩ :=
      accounted.entries row (rows ▸ List.mem_of_getElem? stored)
    rw [current row stored, ← idle.log, List.take_length] at failed
    rw [payload, named] at found
    exact found ▸ failed
  | recorded => exact requeuing.elim
  | resolved =>
    refine ⟨fun row member => ?_, accounted.revived⟩
    obtain ⟨i, bound, rfl⟩ := List.getElem_of_mem member
    rw [List.length_modify] at bound
    have original := accounted.entries _ (List.getElem_mem bound)
    rw [List.getElem_modify]
    split <;> exact original

theorem accounted_of_reachable {ends : World → Code (Option DriveReport) → Prop}
    (reachable : ReachableIf setting requeuesCurrent ends world) : Accounted world := by
  induction reachable with
  | fresh isFresh =>
    obtain ⟨event, clock, issued, _, _, isGenesis, rfl⟩ := isFresh
    refine ⟨List.forall_mem_nil _, ?_⟩
    refine (@eachAt_concat _ _ [] event).mpr ⟨eachAt_nil _, fun stepId revived => ?_⟩
    unfold Event.isGenesis at isGenesis
    cases payload : event.payload with
    | instanceCreated =>
      rw [payload] at revived
      exact revived.elim
    | _ =>
      rw [payload] at isGenesis
      cases isGenesis
  | act actor _ _ current steps _ ih =>
    by_cases isRequeue : ∃ dlqId requeuedBy, actor = .requeue dlqId requeuedBy
    · obtain ⟨dlqId, requeuedBy, rfl⟩ := isRequeue
      exact accounted_of_requeue ih current steps
    · exact accounted_of_steps
        (fun dlqId requeuedBy same => isRequeue ⟨dlqId, requeuedBy, same⟩) ih steps

/-! ### Completed steps stay completed -/

/-- The step has completed: it has an output, and it is done or under review. -/
def Sealed (view : StepView) : Prop :=
  view.output.isSome = true ∧ (view.status = .completed ∨ view.status = .waitingApproval ∨
    view.status = .skipped ∨ view.status = .compensated)

section Seals

variable {rules : Rules} {state : State} {time : Time} {payload : Payload} {stepId : String}

/-- Only a requeue breaks a seal. -/
theorem sealed_advance (legal : Legal rules state time payload)
    (isSealed : Sealed (state.steps stepId)) (untouched : ¬ revivesStep payload stepId) :
    Sealed ((state.advance payload).steps stepId) := by
  have elsewhere {other : String} {change : StepView → StepView}
      (unsealed : ¬ Sealed (state.steps other)) :
      Sealed ((state.modifyStep other change).steps stepId) := by
    rw [steps_modifyStep, if_neg]
    · exact isSealed
    · rintro rfl
      exact unsealed isSealed
  have unsealed {other : String} {status : StepStatus} (found : (state.steps other).status = status)
      (loose : status = .pending ∨ status = .ready ∨ status = .running ∨ status = .failed) :
      ¬ Sealed (state.steps other) := by
    rintro ⟨_, held⟩
    rw [found] at held
    rcases loose with rfl | rfl | rfl | rfl <;> simp at held
  have resealed {other : String} {change : StepView → StepView}
      (keeps : ∀ view, Sealed view → Sealed (change view)) :
      Sealed ((state.modifyStep other change).steps stepId) := by
    rw [steps_modifyStep]
    split
    · exact keeps _ isSealed
    · exact isSealed
  have raised {escalation : Escalation}
      (holds : escalation.stepId ≠ "" → Sealed ((state.modifyStep escalation.stepId
        fun step => { step with status := .waitingApproval }).steps stepId)) :
      Sealed ((state.raiseEscalation escalation).steps stepId) := by
    unfold State.raiseEscalation
    by_cases workflowLevel : escalation.stepId = ""
    · simpa [workflowLevel] using isSealed
    · simpa [workflowLevel] using holds workflowLevel
  cases legal with
  | recovered _ running | completed _ running _ | failed _ running _ =>
    rw [State.advance]
    exact elsewhere (unsealed running (by simp))
  | readied _ pending _ =>
    rw [State.advance]
    exact elsewhere (unsealed pending (by simp))
  | started _ _ _ runnable _ _ _ _ _ =>
    rw [State.advance]
    rcases runnable with ready | ⟨failed, _⟩
    · exact elsewhere (unsealed ready (by simp))
    · exact elsewhere (unsealed failed (by simp))
  | retryScheduled _ failed =>
    rw [State.advance]
    exact elsewhere (unsealed failed (by simp))
  | approvalRaised _ sameStep _ runnable _ _ _ _ =>
    rw [← sameStep] at runnable
    refine raised fun _ => ?_
    rcases runnable with ready | failed
    · exact elsewhere (unsealed ready (by simp))
    · exact elsewhere (unsealed failed (by simp))
  | reviewRaised _ _ _ _ _ _ => exact raised fun _ => resealed fun _ held => ⟨held.1, by simp⟩
  | policyRaised _ failed _ _ _ _ => exact raised fun _ => elsewhere (unsealed failed (by simp))
  | compensationRaised workflowLevel _ _ => exact raised fun level => absurd workflowLevel level
  | released _ _ _ _ =>
    rw [State.advance, steps_modifyStep]
    split
    · next same =>
      subst same
      exact ⟨isSealed.1, by simp [isSealed.1]⟩
    · exact isSealed
  | skipped _ _ _ =>
    rw [State.advance]
    exact resealed fun _ held => ⟨held.1, by simp⟩
  | compensated _ _ _ =>
    rw [State.advance]
    exact resealed fun _ held => ⟨held.1, by simp⟩
  | @requeued other _ _ _ _ _ _ =>
    change Sealed ((state.modifyStep other fun step =>
      { step with status := .ready, attempts := 0, nextRetryAt := none }).steps stepId)
    rw [steps_modifyStep, if_neg fun same => untouched same.symm]
    exact isSealed
  | _ => exact isSealed

/-- A step that has completed is sealed, and it has completed once. -/
theorem completions_of_run {log : List Event} (run : Run rules log) (revived : RevivesFailed log) :
    (replay log).completions stepId = 0 ∨
      (replay log).completions stepId = 1 ∧ Sealed ((replay log).steps stepId) := by
  induction run with
  | @genesis event isGenesis =>
    left
    unfold Event.isGenesis at isGenesis
    cases payload : event.payload with
    | instanceCreated => simp [State.completions, payload, completes]
    | _ =>
      rw [payload] at isGenesis
      cases isGenesis
  | @step log event run legal _ ih =>
    obtain ⟨earlier, found⟩ := eachAt_concat.mp revived
    rw [replay_concat, completions_after]
    have before := ih earlier
    by_cases completing : completes event.payload stepId = true
    · obtain ⟨running, output⟩ := legal.of_completes completing
      rw [if_pos completing]
      right
      constructor
      · rcases before with none | ⟨_, _, held⟩
        · rw [none]
        · rw [running] at held
          simp at held
      · refine ⟨Option.isSome_iff_ne_none.mpr output, .inl ?_⟩
        cases payload : event.payload with
        | stepCompleted =>
          rw [payload] at completing
          rw [State.after, payload]
          simp [State.advance, State.modifyStep, of_decide_eq_true completing]
        | _ =>
          rw [payload] at completing
          cases completing
    · rw [if_neg completing, Nat.add_zero]
      refine before.imp_right fun once => ⟨once.1, ?_⟩
      refine sealed_advance legal once.2 fun reviving => ?_
      have failed := found stepId reviving
      obtain ⟨_, _, held⟩ := once
      rw [failed] at held
      simp at held

/-- Accepted events other than requeues move steps along the table. -/
theorem status_advance_of_accepts (accepted : state.Accepts payload)
    (untouched : ¬ revivesStep payload stepId) :
    ((state.advance payload).steps stepId).status = (state.steps stepId).status ∨
      stepTransitionAllowed (state.steps stepId).status
        ((state.advance payload).steps stepId).status = true := by
  have moved {other : String} {change : StepView → StepView}
      (allowed : stepTransitionAllowed (state.steps other).status
        (change (state.steps other)).status = true) :
      ((state.modifyStep other change).steps stepId).status = (state.steps stepId).status ∨
        stepTransitionAllowed (state.steps stepId).status
          ((state.modifyStep other change).steps stepId).status = true := by
    rw [steps_modifyStep]
    split
    · next same => exact .inr (same ▸ allowed)
    · exact .inl rfl
  cases payload with
  | stepStatusChanged =>
    rw [State.advance]
    exact moved accepted.2
  | stepStarted | stepCompleted | stepFailed | stepSkipped | stepCompensated =>
    rw [State.advance]
    exact moved accepted
  | stepRetryScheduled other =>
    left
    rw [State.advance, steps_modifyStep]
    split <;> rfl
  | escalationRaised escalation =>
    rw [State.advance]
    unfold State.raiseEscalation
    by_cases workflowLevel : escalation.stepId = ""
    · simp [workflowLevel]
    · simp only [workflowLevel, if_false]
      exact moved (accepted.resolve_left workflowLevel)
  | workflowRequeued revived =>
    left
    cases revived with
    | none => rfl
    | some other =>
      change ((state.modifyStep other fun step =>
        { step with status := .ready, attempts := 0, nextRetryAt := none }).steps
          stepId).status = _
      rw [steps_modifyStep, if_neg fun same => untouched same.symm]
  | _ => exact .inl rfl

end Seals

/-- As long as every requeued entry was recorded at the current version, a
requeue finds its step failed; so no step that is completed or skipped becomes
ready again, and no step completes twice. -/
theorem requeue_revives_failed {ends : World → Code (Option DriveReport) → Prop}
    (reachable : ReachableIf setting requeuesCurrent ends world) :
    (∀ before event after stepId requeuedBy dlqId, world.log = before ++ event :: after →
      event.payload = .workflowRequeued (some stepId) requeuedBy dlqId →
      ∃ inst, fold before (some setting.definition) = .ok inst ∧
        (inst.stepOr stepId).status = .failed) ∧
    (∀ before event after stepId inst next, world.log = before ++ event :: after →
      fold before (some setting.definition) = .ok inst →
      fold (before ++ [event]) (some setting.definition) = .ok next →
      (inst.stepOr stepId).status = .completed ∨ (inst.stepOr stepId).status = .skipped →
      (next.stepOr stepId).status ≠ .ready) ∧
    ∀ stepId, world.log.countP (fun event => completes event.payload stepId) ≤ 1 := by
  have consistent := consistent_of_reachable reachable.reachable
  have accounted := accounted_of_reachable reachable
  have stepsOf {log : List Event} {inst : WorkflowInstance}
      (folded : fold log (some setting.definition) = .ok inst) (stepId : String) :
      ((replay log).steps stepId).status = (inst.stepOr stepId).status := by
    rw [← view_of_fold folded]
    rfl
  refine ⟨?_, ?_, ?_⟩
  · intro before event after stepId requeuedBy dlqId split payload
    have later : event.isGenesis = false := by rw [Event.isGenesis, payload]
    obtain ⟨final, finalOk, _⟩ := consistent.folds
    rw [split] at finalOk
    obtain ⟨inst, folded, _⟩ := exists_fold_of_append
      (consistent.run.before_ne_nil split later) finalOk
    refine ⟨inst, folded, ?_⟩
    rw [← stepsOf folded]
    exact accounted.revived before event after split stepId (by rw [payload]; rfl)
  · intro before event after stepId inst next split folded nextFolded done isReady
    rw [← stepsOf folded] at done
    rw [← stepsOf nextFolded, replay_concat] at isReady
    have untouched : ¬ revivesStep event.payload stepId := by
      intro revived
      have failed := accounted.revived before event after split stepId revived
      rcases done with done | done <;> rw [failed] at done <;> cases done
    have accepted := (@view_of_fold_batch _ before _ _ _
      ((fold_append folded).mp nextFolded)).1.1
    rw [view_of_fold folded] at accepted
    rcases status_advance_of_accepts accepted untouched with same | allowed
    · rw [show ((replay before).advance event.payload).steps stepId =
        ((replay before).after event).steps stepId from rfl, isReady] at same
      rcases done with done | done <;> rw [← same] at done <;> cases done
    · rw [show ((replay before).advance event.payload).steps stepId =
        ((replay before).after event).steps stepId from rfl, isReady] at allowed
      rcases done with done | done <;> rw [done] at allowed <;> cases allowed
  · intro stepId
    have counted := @completions_of_run _ stepId _ consistent.run accounted.revived
    unfold State.completions at counted
    rw [log_replay] at counted
    omega

/-! ### An old entry is requeued -/

/-- Two steps, one after the other; failures end in the dead letters. -/
def shipWorkflow : WorkflowDefinition where
  workflowId := "shipping"
  version := "1.0.0"
  steps := [{ stepId := "pack", agentType := "packer" },
    { stepId := "ship", agentType := "carrier", dependencies := ["pack"] }]
  onFailure := .deadLetter
  valid := rfl

def shipSetting : Setting :=
  .simple shipWorkflow fun _ => True

/-- A drive in which the steps of some agents fail for good. -/
def shipDrive (broken : List String) : Actor :=
  .drive
    { registry := fun agentType => some fun _ =>
        if agentType ∈ broken then
          .raise { exnClass := .exception, typeName := "ValueError", message := "broken" }
        else
          pure { output := Dict.empty }
      digestMessages := fun _ _ => "" }
    { instanceId := shipSetting.instanceId, tenantId := shipSetting.tenantId,
      workflowId := shipWorkflow.workflowId, workflowVersion := shipWorkflow.version,
      workerId := "worker" }

/-- The first step has failed and its entry is requeued. -/
@[irreducible]
def packRequeued : World :=
  executeAll shipSetting {} [(60, shipDrive ["packer"]), (60, .requeue 0 "operator")]
    (.opened shipSetting none)

/-- A dead-lettered instance is resumed and dead-lettered again, the first entry
is requeued, the second step fails, and then the second entry of the first step
is requeued, and at last that of the second step. -/
@[irreducible]
def packRequeuedTwice : World :=
  executeAll shipSetting {}
    [(60, shipDrive ["packer"]), (60, .resume "operator"), (60, shipDrive ["packer"]),
      (60, .requeue 0 "operator"), (90, shipDrive ["carrier"]), (60, .requeue 1 "operator"),
      (90, shipDrive ["carrier"]), (60, .requeue 3 "operator"), (90, shipDrive [])]
    (.opened shipSetting none)

theorem requeue_revives_failed_packRequeued :
    "WorkflowRequeued" ∈ packRequeued.eventTypes ∧
    (∀ before event after stepId requeuedBy dlqId, packRequeued.log = before ++ event :: after →
      event.payload = .workflowRequeued (some stepId) requeuedBy dlqId →
      ∃ inst, fold before (some shipWorkflow) = .ok inst ∧
        (inst.stepOr stepId).status = .failed) ∧
    (∀ before event after stepId inst next, packRequeued.log = before ++ event :: after →
      fold before (some shipWorkflow) = .ok inst →
      fold (before ++ [event]) (some shipWorkflow) = .ok next →
      (inst.stepOr stepId).status = .completed ∨ (inst.stepOr stepId).status = .skipped →
      (next.stepOr stepId).status ≠ .ready) ∧
    ∀ stepId, packRequeued.log.countP (fun event => completes event.payload stepId) ≤ 1 := by
  have reachable : ReachableIf shipSetting requeuesCurrent anywhere packRequeued := by
    unfold packRequeued
    exact ReachableIf.executeAll (.fresh ⟨_, 0, [], rfl, rfl, rfl, rfl⟩)
      ⟨trivial, trivial, trivial, trivial, by decide +kernel, trivial, trivial⟩
  exact ⟨by decide +kernel, requeue_revives_failed reachable⟩

/-- The event at a position requeues a step that is completed there. -/
def requeuesCompleted (definition : WorkflowDefinition) (log : List Event) (position : Nat)
    (stepId : String) : Bool :=
  match log[position]?.map Event.payload, fold (log.take position) (some definition) with
  | some (.workflowRequeued (some revived) _ _), .ok inst =>
      revived = stepId ∧ (inst.stepOr stepId).status = .completed
  | _, _ => false

/-- A completed step is made ready again, and it completes a second time. -/
theorem completed_step_requeued :
    Reachable shipSetting anywhere packRequeuedTwice ∧
      (∃ before event after requeuedBy dlqId inst,
        packRequeuedTwice.log = before ++ event :: after ∧
        event.payload = .workflowRequeued (some "pack") requeuedBy dlqId ∧
        fold before (some shipWorkflow) = .ok inst ∧
        (inst.stepOr "pack").status = .completed) ∧
      packRequeuedTwice.log.countP (fun event => completes event.payload "pack") = 2 := by
  have found : requeuesCompleted shipWorkflow packRequeuedTwice.log 15 "pack" = true := by
    decide +kernel
  have counted : packRequeuedTwice.log.countP
      (fun event => completes event.payload "pack") = 2 := by
    decide +kernel
  refine ⟨?_, ?_, counted⟩
  · unfold packRequeuedTwice
    exact (reachable_opened shipSetting anywhere none).executeAll
      ⟨trivial, trivial, trivial, trivial, trivial, trivial, trivial, trivial, trivial, trivial,
        trivial, trivial, trivial, trivial, trivial, trivial, trivial, trivial, trivial⟩
  · generalize packRequeuedTwice.log = log at found
    unfold requeuesCompleted at found
    split at found
    · next revived requeuedBy dlqId inst listed folded =>
      obtain ⟨rfl, completed⟩ := of_decide_eq_true found
      obtain ⟨event, stored, payload⟩ := Option.map_eq_some_iff.mp listed
      obtain ⟨bound, rfl⟩ := List.getElem?_eq_some_iff.mp stored
      refine ⟨log.take 15, log[15], log.drop 16, requeuedBy, dlqId, inst, ?_, payload, folded,
        completed⟩
      rw [List.getElem_cons_drop, List.take_append_drop]
    · cases found

/-! ## Entries of dead-lettered instances -/

/-- A dead-lettered instance has an unresolved entry. -/
def Listed (setting : Setting) (world : World) : Prop :=
  (replay world.log).status = .deadLettered →
    ∃ row ∈ world.deadLetters, row.resolved = false ∧
      (row.instanceId, row.tenantId) = setting.owner

/-- The log begins with an event of the instance. -/
def Opened (setting : Setting) (log : List Event) : Prop :=
  ∃ first rest, log = first :: rest ∧ first.owner = setting.owner

theorem Opened.grow (opened : Opened setting log) (batch : List Event) :
    Opened setting (log ++ batch) := by
  obtain ⟨first, rest, rfl, owned⟩ := opened
  exact ⟨first, rest ++ batch, rfl, owned⟩

theorem Opened.owner {definition : Option WorkflowDefinition} (opened : Opened setting log)
    (folded : fold log definition = .ok inst) : inst.owner = setting.owner := by
  obtain ⟨first, rest, rfl, owned⟩ := opened
  exact (owner_of_fold folded).trans owned

/-- Only an event that buries the workflow moves it to `DEAD_LETTERED`. -/
theorem status_of_afterAll {state : State} {events : List Event}
    (alive : ∀ event ∈ events, buries event.payload = false)
    (dead : (state.afterAll events).status = .deadLettered) : state.status = .deadLettered := by
  induction events generalizing state with
  | nil => exact dead
  | cons event rest ih =>
    have later := @ih (state.after event)
      (fun other member => alive other (List.mem_cons_of_mem _ member)) dead
    have first := alive event List.mem_cons_self
    change (state.advance event.payload).status = .deadLettered at later
    cases payload : event.payload with
    | instanceStatusChanged source target reason =>
      rw [payload] at first later
      obtain rfl : target = .deadLettered := later
      cases first
    | instanceCompleted | instanceFailed =>
      rw [payload] at later
      cases later
    | workflowRequeued stepId =>
      rw [payload] at later
      cases stepId <;> cases later
    | escalationRaised escalation =>
      rw [payload] at later
      exact (state.status_raiseEscalation escalation).symm.trans later
    | _ =>
      rw [payload] at later
      exact later

theorem Listed.same (listed : Listed setting world) (log : next.log = world.log)
    (rows : next.deadLetters = world.deadLetters) : Listed setting next := by
  unfold Listed
  rw [log, rows]
  exact listed

/-- A worker does not stop between the move to `DEAD_LETTERED` and the entry. -/
def recordsEntry : World → Code (Option DriveReport) → Prop
  | _, .perform (.recordDeadLetter _) _ => False
  | _, _ => True

theorem recordsEntry_of_finished (finished : Finished residual) (world : World) :
    recordsEntry world residual := by
  cases residual with
  | done | raise => trivial
  | perform => exact finished.elim

/-- No recording of an entry is refused. -/
def Filed : (op : Op) → op.Result → Prop
  | .recordDeadLetter _, recorded => recorded.isOk = true
  | _, _ => True

/-- The answers of a store that takes every entry. -/
def filing (setting : Setting) : Semantics World Op Op.Result :=
  fun world op response next => answers setting world op response next ∧ Filed op response

/-- Worlds that actors lead to whose entries are all recorded. -/
inductive ReachableFiling (setting : Setting) : World → Prop
  | fresh {world : World} : world.Fresh setting → ReachableFiling setting world
  | act {world next : World} {residual : Code (Option DriveReport)} (actor : Actor) :
      ReachableFiling setting world →
      setting.admits actor →
      Steps (filing setting) world (actor.program setting) next residual →
      recordsEntry next residual →
      ReachableFiling setting next

theorem ReachableFiling.reachable (reachable : ReachableFiling setting world) :
    Reachable setting recordsEntry world := by
  induction reachable with
  | fresh isFresh => exact .fresh isFresh
  | act actor _ admitted steps records ih =>
    exact .act actor ih admitted (steps.imp fun _ _ _ _ answered => answered.1) records

/-- While a single actor other than a requeue is at work, there is an entry
unless the next operation records it. -/
private theorem listed_of_steps (others : ∀ dlqId requeuedBy, actor ≠ .requeue dlqId requeuedBy)
    (opened : Opened setting world.log) (listed : Listed setting world)
    (steps : Steps (filing setting) world (actor.program setting) next residual)
    (records : recordsEntry next residual) : Listed setting next := by
  have kept (world : World) (grasp : Hand) (op : Op) (response : op.Result) (next : World)
      (holds : Opened setting world.log ∧ (grasp.due = false → Listed setting world))
      (atTip : AtTip world.log grasp) (based : Based actor grasp op)
      (filed : filing setting world op response next) :
      Opened setting next.log ∧
        ((grasp.after op response).due = false → Listed setting next) := by
    obtain ⟨opened, listed⟩ := holds
    obtain ⟨answered, filed⟩ := filed
    have settled (filing : ¬ Op.files op) : Listed setting world :=
      listed (Bool.eq_false_of_not_eq_true fun due => filing (based.prompt due))
    cases op with
    | recordDeadLetter row =>
      obtain ⟨_, rfl, _⟩ | ⟨_, rfl⟩ := answered
      · cases filed
      obtain ⟨inst, stepId, reason, held, _, _, rfl⟩ := based.grounded
      refine ⟨opened, fun _ _ => ⟨_, List.mem_append_right _ List.mem_cons_self, rfl, ?_⟩⟩
      exact opened.owner (atTip inst held)
    | appendNew =>
      rcases answered with ⟨failure, rfl, rfl⟩ | ⟨committed, rfl⟩
      · exact ⟨opened, listed⟩
      · obtain ⟨_, _, _, _, _, rfl⟩ := commit_eq_ok committed
        refine ⟨opened.grow _, fun alive dead => ?_⟩
        have none := List.any_eq_false.mp alive
        refine settled id (status_of_afterAll (fun event member =>
          Bool.eq_false_of_not_eq_true (none event member)) ?_)
        rwa [← replay_append]
    | resolveDeadLetter dlqId =>
      obtain ⟨requeuedBy, isRequeue⟩ := based.grounded
      exact absurd isRequeue (others dlqId requeuedBy)
    | completeLLM =>
      cases response <;> cases answered <;> exact ⟨opened, fun _ => (settled id).same rfl rfl⟩
    | mark mark =>
      cases answered
      cases mark <;> exact ⟨opened, fun _ => (settled id).same rfl rfl⟩
    | _ =>
      cases change_of_answers answered with
      | none sameLog _ _ _ sameRows =>
        exact ⟨sameLog ▸ opened, fun _ => (settled id).same sameLog sameRows⟩
  obtain ⟨grasp, ⟨_, holds⟩, _, safe⟩ := @exists_grasp_of_steps setting world next actor
    (filing setting) (fun _ _ _ _ answered => answered.1)
    (fun world grasp => Opened setting world.log ∧ (grasp.due = false → Listed setting world))
    kept residual steps ⟨opened, fun _ => listed⟩
  apply holds
  cases residual with
  | done report => exact safe
  | raise failure => exact safe
  | perform op rest =>
    refine Bool.eq_false_of_not_eq_true fun due => ?_
    have filing := safe.1.prompt due
    cases op with
    | recordDeadLetter => exact records
    | _ => exact filing

/-- A requeue has moved the workflow on before it resolves the entry. -/
private theorem listed_of_requeue (listed : Listed setting world)
    (steps : Steps (answers setting) world ((Actor.requeue dlqId requeuedBy).program setting) next
      residual) : Listed setting next := by
  refine (safe_requeue setting world dlqId requeuedBy).preserves ?_ steps listed
  intro start op response next listed requeuing answered
  cases change_of_answers answered with
  | none sameLog _ _ _ sameRows => exact listed.same sameLog sameRows
  | called => exact listed.same rfl rfl
  | @noted mark => cases mark <;> exact listed.same rfl rfl
  | committed committed =>
    obtain ⟨_, row, requeuedBy, _, single⟩ := requeuing
    obtain ⟨_, _, _, _, _, rfl⟩ := commit_eq_ok committed
    intro dead
    rw [← payload_resequence] at single
    rw [status_of_requeued single] at dead
    cases dead
  | recorded => exact requeuing.elim
  | resolved =>
    intro dead
    rw [show (replay start.log).status = _ from requeuing] at dead
    cases dead

/-- As long as no worker stops between the move to `DEAD_LETTERED` and the
recording of its entry, and no recording is refused, every dead-lettered instance has
an unresolved entry. -/
theorem dead_lettered_listed (reachable : ReachableFiling setting world)
    {inst : WorkflowInstance} (folded : fold world.log (some setting.definition) = .ok inst)
    (dead : inst.status = .deadLettered) :
    ∃ row ∈ world.deadLetters, row.resolved = false ∧ row.instanceId = setting.instanceId ∧
      row.tenantId = setting.tenantId := by
  have listed : Listed setting world := by
    clear folded
    induction reachable with
    | fresh isFresh =>
        obtain ⟨event, clock, issued, _, _, isGenesis, rfl⟩ := isFresh
        intro dead
        obtain ⟨_, initial⟩ := replay_genesis isGenesis
        rw [initial] at dead
        cases dead
    | act actor before _ steps records ih =>
        by_cases isRequeue : ∃ dlqId requeuedBy, actor = .requeue dlqId requeuedBy
        · obtain ⟨dlqId, requeuedBy, rfl⟩ := isRequeue
          exact listed_of_requeue ih (steps.imp fun _ _ _ _ answered => answered.1)
        · refine listed_of_steps (fun dlqId requeuedBy same => isRequeue ⟨dlqId, requeuedBy, same⟩)
            ?_ ih steps records
          obtain ⟨inst, folded, owned⟩ := (consistent_of_reachable before.reachable).folds
          obtain ⟨first, rest, same⟩ := List.exists_cons_of_ne_nil (ne_nil_of_fold folded)
          rw [same] at folded ⊢
          exact ⟨first, rest, rfl, (owner_of_fold folded).symm.trans owned⟩
  have status : (replay world.log).status = inst.status := by
    rw [← view_of_fold folded]
    rfl
  obtain ⟨row, member, unresolved, owned⟩ := listed (status.trans dead)
  exact ⟨row, member, unresolved, congrArg Prod.fst owned, congrArg Prod.snd owned⟩

/-! ### A worker dies before the entry is recorded -/

/-- The first step has failed, and the instance is dead-lettered. -/
@[irreducible]
def packBuried : World :=
  executeAll shipSetting {} [(60, shipDrive ["packer"])] (.opened shipSetting none)

theorem dead_lettered_listed_packBuried :
    packBuried.status shipSetting = some .deadLettered ∧
      ∃ row ∈ packBuried.deadLetters, row.resolved = false ∧
        row.instanceId = shipSetting.instanceId ∧ row.tenantId = shipSetting.tenantId := by
  have status : packBuried.status shipSetting = some .deadLettered := by decide +kernel
  have filed (world : World) (op : Op) : filing shipSetting world op
      (world.answer shipSetting {} op).1 (world.answer shipSetting {} op).2 :=
    ⟨World.answers_answer shipSetting {} world op, by cases op <;> trivial⟩
  have reachable : ReachableFiling shipSetting packBuried := by
    unfold packBuried
    exact .act (shipDrive ["packer"]) (.fresh ⟨_, 0, [], rfl, rfl, rfl, rfl⟩) trivial
      (steps_runFor filed 60 _ _) (recordsEntry_of_finished (by decide +kernel) _)
  obtain ⟨inst, folded, dead⟩ := exists_fold_of_status status
  exact ⟨status, dead_lettered_listed reachable folded dead⟩

/-- The worker has died right after it has moved the instance. -/
@[irreducible]
def packLost : World :=
  executeAll shipSetting {} [(23, shipDrive ["packer"])] (.opened shipSetting none)

/-- The instance is dead-lettered, and there is no entry for it. -/
theorem dead_lettered_unlisted :
    Reachable shipSetting anywhere packLost ∧
      packLost.status shipSetting = some .deadLettered ∧ packLost.deadLetters = [] := by
  refine ⟨?_, by decide +kernel, by decide +kernel⟩
  unfold packLost
  exact (reachable_opened shipSetting anywhere none).executeAll ⟨trivial, trivial, trivial⟩

end AgentForge.Guarantees
