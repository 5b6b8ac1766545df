import AgentForge.Refinement.Writing

/-!
# The head of the driver's loop

Between two waves nothing is owed.  A batch that ends no attempt leads from such
a world to another one, whoever appends it.
-/

namespace AgentForge.Refinement

open Domain Events Library Engine Protocol

variable {setting : Setting} {care : Care} {world next : World} {inst : WorkflowInstance}
  {batch : List Event} {stepId : String}

/-- The world is at the head of the driver's loop: nothing is owed. -/
structure AtHead (setting : Setting) (care : Care) (world : World) (inst : WorkflowInstance) :
    Prop where
  holds : Holds setting world inst
  consistent : Consistent setting world
  tidy : Tidy setting care world

theorem AtHead.idle (atHead : AtHead setting care world inst) (idle : Idle setting world next) :
    AtHead setting care next inst :=
  ⟨atHead.holds.idle idle, atHead.consistent.idle idle, atHead.tidy.idle idle⟩

/-! ## Batches without endings -/

theorem failedAttempt_of_not_ends {payload : Payload} (open_ : ends payload = false)
    (stepId : String) : failedAttempt payload stepId = none := by
  cases payload <;> first | rfl | cases open_

theorem not_completesAttempt_of_not_ends {event : Event} (open_ : ends event.payload = false)
    (stepId : String) (attempt : Nat) : ¬ completesAttempt stepId attempt event := by
  rintro ⟨output, modelUsed, payload⟩
  rw [payload] at open_
  cases open_

theorem NoEndings.park {park : Event} {source target : WorkflowStatus} {reason : Option String}
    (noEndings : NoEndings batch)
    (parks : park.payload = .instanceStatusChanged source target reason) :
    NoEndings (batch ++ [park]) :=
  forall_mem_concat noEndings (by rw [parks]; rfl)

private theorem unscheduled_of_after {rules : Rules} {state : State} {event : Event}
    (legal : Legal rules state event.occurredAt event.payload) (open_ : ends event.payload = false)
    (failed : ((state.after event).steps stepId).status = .failed)
    (unscheduled : ((state.after event).steps stepId).nextRetryAt = none) :
    (state.steps stepId).status = .failed ∧ (state.steps stepId).nextRetryAt = none := by
  have change := legal.stepChange_after stepId
  generalize (state.after event).steps stepId = after at change failed unscheduled
  cases change with
  | same => exact ⟨failed, unscheduled⟩
  | failed reported _ =>
    rw [ends_of_fails reported] at open_
    cases open_
  | retryScheduled _ => cases unscheduled
  | released _ _ _ =>
    by_cases output : (state.steps stepId).output.isSome <;> simp [output] at failed
  | _ => simp at failed

/-- Only an ending makes a step fail without a retry. -/
theorem unscheduled_of_afterAll {rules : Rules} {state : State}
    (legal : LegalBatch rules state batch) (accepted : state.AcceptsAll batch)
    (noEndings : NoEndings batch) (failed : ((state.afterAll batch).steps stepId).status = .failed)
    (unscheduled : ((state.afterAll batch).steps stepId).nextRetryAt = none) :
    (state.steps stepId).status = .failed ∧ (state.steps stepId).nextRetryAt = none := by
  induction batch generalizing state with
  | nil => exact ⟨failed, unscheduled⟩
  | cons event rest ih =>
    obtain ⟨failed', unscheduled'⟩ := ih (legal.2 accepted.1) accepted.2
      (fun other member => noEndings other (List.mem_cons_of_mem _ member)) failed unscheduled
    exact unscheduled_of_after legal.1 (noEndings event List.mem_cons_self) failed' unscheduled'

/-- What leads from one consistent world to another was accepted. -/
theorem Appended.acceptsAll (appended : Appended world batch next)
    (consistent : Consistent setting world) (nextConsistent : Consistent setting next) :
    (Protocol.replay world.log).AcceptsAll batch := by
  obtain ⟨inst, folded, _⟩ := consistent.folds
  obtain ⟨result, nextFolded, _⟩ := nextConsistent.folds
  exact Holds.acceptsAll folded appended nextFolded

section Appended

variable (appended : Appended world batch next) (consistent : Consistent setting world)
  (nextConsistent : Consistent setting next)
  (legal : LegalBatch (rulesOf setting) (replay world.log) batch) (noEndings : NoEndings batch)

include appended consistent nextConsistent legal noEndings

/-- A retry that is owed after a batch without endings was owed before. -/
theorem RetryOwed.of_appended {stepId : String}
    (owed : RetryOwed setting.definition next.log stepId) :
    RetryOwed setting.definition world.log stepId := by
  obtain ⟨inst, folded, _⟩ := consistent.folds
  obtain ⟨result, nextFolded, _⟩ := nextConsistent.folds
  have accepted := appended.acceptsAll consistent nextConsistent
  rw [retryOwed_iff nextFolded, appended.replay] at owed
  obtain ⟨failed, unscheduled, step, member, sameStep, attempt, within, last⟩ := owed
  obtain ⟨failed', unscheduled'⟩ :=
    unscheduled_of_afterAll legal accepted noEndings failed unscheduled
  rw [retryOwed_iff folded]
  refine ⟨failed', unscheduled', step, member, sameStep, attempt, within, ?_⟩
  obtain ⟨rows, rfl⟩ := appended
  rwa [lastFailure_append_of_none fun event eventMember =>
    failedAttempt_of_not_ends (noEndings event eventMember) stepId] at last

/-- A batch without endings leaves no debt behind. -/
theorem Tidy.append (tidy : Tidy setting care world) : Tidy setting care next := by
  constructor
  case retries =>
    exact fun cares stepId owed => tidy.retries cares stepId
      (owed.of_appended appended consistent nextConsistent legal noEndings)
  case reviews =>
    rintro cares ⟨record, member, asked, ⟨event, eventMember, completes⟩, unraised⟩
    obtain ⟨rows, rfl⟩ := appended
    rcases List.mem_append.mp eventMember with old | new
    · refine tidy.reviews cares ⟨record, member, asked, ⟨event, old, completes⟩, ?_⟩
      rintro ⟨escalationId, inOrder⟩
      exact unraised ⟨escalationId, inOrder.append _⟩
    · exact not_completesAttempt_of_not_ends (noEndings event new) _ _ completes
  case calls =>
    rintro cares ⟨record, member, now⟩
    obtain ⟨rows, rfl⟩ := appended
    have before := consistent.positions record member
    rw [List.length_append] at now
    exact tidy.calls cares ⟨record, member, by omega⟩

end Appended

/-- Drafting and appending a batch without endings leads back to the head of the
loop. -/
theorem AtHead.keeps_append (atHead : AtHead setting care world inst) {drafts : List Event}
    (sound : Sound setting world (resequence world.log.length drafts))
    (noEndings : NoEndings (resequence world.log.length drafts)) (wakeup : Option Time) :
    Keeps setting care (fun result next => AtHead setting care next result ∧ world.log <+: next.log)
      (append setting.definition inst drafts wakeup) world := by
  refine (Refinement.keeps_append atHead.holds atHead.consistent
    (fun _ => .of_tidy atHead.tidy sound noEndings) wakeup).imp ?_
  rintro result next ⟨holds, consistent, appended⟩
  refine ⟨⟨holds, consistent, atHead.tidy.append appended atHead.consistent consistent
    sound.legal noEndings⟩, ?_⟩
  obtain ⟨rows, rfl⟩ := appended
  exact List.prefix_append _ _

/-- The same for a list of payloads. -/
theorem AtHead.keeps_write (atHead : AtHead setting care world inst) (payloads : List Payload)
    (sound : ∀ middle batch, Idle setting world middle →
      Drafted (rulesOf setting) world.clock payloads batch → Sound setting middle batch)
    (noEndings : ∀ payload ∈ payloads, ends payload = false) (wakeup : Option Time) :
    Keeps setting care
      (fun result next => AtHead setting care next result ∧ world.log <+: next.log)
      (do
        let drafts ← Program.traverse (draftEvent inst) payloads
        append setting.definition inst drafts wakeup)
      world := by
  refine (keeps_drafts atHead.consistent inst payloads).bind ?_
  rintro drafts middle ⟨idle, drafted⟩
  have numbered := drafted.resequence middle.log.length
  rw [← idle.log]
  exact (atHead.idle idle).keeps_append (sound middle _ idle numbered)
    (numbered.forall_mem noEndings) wakeup

end AgentForge.Refinement
