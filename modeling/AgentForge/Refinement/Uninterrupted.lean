import AgentForge.Engine.PlanProgress
import AgentForge.Refinement.Alone

/-!
# Uninterrupted drives

A worker that holds its lease while nobody else writes gets every append that
the journal can take, and what a drive appends the journal can take.  What such
a drive raises therefore comes from the attempts it runs and from what it calls
to undo side effects, or from the bound on its iterations.
-/

namespace AgentForge.Refinement

open Domain Events Library Engine Protocol
open Program

variable {setting : Setting} {world next : World} {inst : WorkflowInstance}

variable {payload : Payload} {drafts : List Event} {α : Type} {good : Payload → Prop}
  {final : World} {payloads : List Payload} {config : Config} {outcomes : StepOutcome → Prop}
  {results : List AttemptResult}

/-! ## Appends that the journal takes -/

/-- The fold takes every legal event of a drive. -/
theorem accepts_of_steers {rules : Rules} {state : State} {time : Time}
    (steering : steers payload) (legal : Legal rules state time payload) :
    state.Accepts payload := by
  apply legal.accepts_of_allowed
  · rintro stepId source target reason rfl
    obtain ⟨rfl, rfl | rfl⟩ := steering <;> rfl
  · rintro stepId requeuedBy dlqId rfl
    exact steering

/-- A legal batch of a drive can be committed. -/
theorem exists_commit (consistent : Consistent setting world)
    (holds : Holds setting world inst) (nonempty : drafts ≠ [])
    (owned : ∀ draft ∈ drafts, draft.owner = inst.owner)
    (accepted : (replay world.log).AcceptsAll (resequence world.log.length drafts)) :
    ∃ next, world.commit setting inst.instanceId inst.tenantId drafts inst.version = .ok next := by
  have owner := holds.owner consistent
  have ownedNumbered : ∀ event ∈ resequence world.log.length drafts,
      event.owner = setting.owner := by
    intro event member
    have listed := List.mem_map_of_mem (f := Event.owner) member
    rw [owner_resequence] at listed
    obtain ⟨draft, draftMember, same⟩ := List.mem_map.mp listed
    rw [← same, owned draft draftMember]
    exact owner
  obtain ⟨_, bare, folded⟩ := holds.exists_fold accepted
  have native : ¬ ((resequence world.log.length drafts).any fun event =>
      event.owner ≠ (inst.instanceId, inst.tenantId)) = true := by
    rw [List.any_eq_true]
    rintro ⟨event, member, foreign⟩
    exact of_decide_eq_true foreign ((ownedNumbered event member).trans owner.symm)
  have known : ¬ ((inst.instanceId, inst.tenantId) ≠ setting.owner ∨
      resequence world.log.length drafts = []) := by
    rintro (foreign | empty)
    · exact foreign owner
    · exact nonempty (resequence_eq_nil.mp empty)
  unfold World.commit
  rw [holds.version]
  simp only [if_neg native, if_neg known, folded]
  simp

/-- Nothing outside the journal prevents what a worker asks for: the definition
is found, an append that can be committed is committed, and no entry is refused. -/
def Granted (setting : Setting) (world : World) : (op : Op) → op.Result → Prop
  | .getDefinition .., definition => definition = some setting.definition
  | .appendNew instanceId tenantId drafts expectedVersion .., result =>
      (∃ next, world.commit setting instanceId tenantId drafts expectedVersion = .ok next) →
        result.isOk = true
  | .recordDeadLetter _, result => result.isOk = true
  | _, _ => True

/-- The answers that a worker gets while it holds its lease and nobody else
writes. -/
def undisturbed (setting : Setting) (world : World) (op : Op) (response : op.Result)
    (next : World) : Prop :=
  answers setting world op response next ∧ Granted setting world op response

/-- What executable worlds answer is what a worker gets that nothing disturbs. -/
theorem undisturbed_answer (setting : Setting) (oracle : Oracle) (world : World) (op : Op) :
    undisturbed setting world op (world.answer setting oracle op).1
      (world.answer setting oracle op).2 := by
  refine ⟨World.answers_answer setting oracle world op, ?_⟩
  cases op with
  | getDefinition => rfl
  | appendNew instanceId tenantId drafts expectedVersion guarded wakeup =>
    rintro ⟨next, committed⟩
    change (world.commitOr setting instanceId tenantId drafts expectedVersion).1.isOk = true
    unfold World.commitOr
    rw [committed]
    rfl
  | _ => trivial

/-- A drive that nothing disturbs comes to an end. -/
theorem exists_undisturbed_end (setting : Setting) (code : Code α) (world : World) :
    ∃ final outcome, Steps (undisturbed setting) world code final (ended outcome) :=
  exists_steps_ended (fun world op => ⟨_, _, undisturbed_answer setting {} world op⟩) code world

/-- Every step of the definition has a stored state. -/
theorem Holds.stored (holds : Holds setting world inst) : Stored setting.definition inst := by
  intro stepId member
  obtain ⟨bare, _, related⟩ := (fold_agree (some setting.definition) _).ok_left holds
  exact related.mem_keys
    (mem_flatMap_seedsOf.mpr ⟨exists_genesis_of_fold holds, member⟩)

/-! ## Growth of the log -/

/-- The log has grown by events of some kind, and no failure policy has been
applied. -/
def Grown (good : Payload → Prop) (world next : World) : Prop :=
  next.policies = world.policies ∧
    ∃ more, next.log = world.log ++ more ∧ ∀ event ∈ more, good event.payload

theorem Grown.of_idle (idle : Idle setting world next) : Grown good world next := by
  obtain ⟨clock, issued, rfl, _, _⟩ := idle
  exact ⟨rfl, [], (List.append_nil _).symm, List.forall_mem_nil _⟩

theorem Grown.trans (first : Grown good world next)
    (second : Grown good next final) : Grown good world final := by
  obtain ⟨samePolicies, more, grown, all⟩ := first
  obtain ⟨samePolicies', more', grown', all'⟩ := second
  refine ⟨samePolicies'.trans samePolicies, more ++ more', ?_, ?_⟩
  · rw [grown', grown, List.append_assoc]
  · intro event member
    exact (List.mem_append.mp member).elim (all event) (all' event)

theorem Grown.mono {good better : Payload → Prop} (grown : Grown good world next)
    (weaken : ∀ payload, good payload → better payload) : Grown better world next := by
  obtain ⟨samePolicies, more, log, all⟩ := grown
  exact ⟨samePolicies, more, log, fun event member => weaken _ (all event member)⟩

/-- The log has grown, among others by an event of some kind. -/
def Logged (good : Payload → Prop) (world next : World) : Prop :=
  ∃ more, next.log = world.log ++ more ∧ ∃ event ∈ more, good event.payload

theorem Logged.grown {good any : Payload → Prop} (logged : Logged good world next)
    (grown : Grown any next final) : Logged good world final := by
  obtain ⟨more, log, event, member, isGood⟩ := logged
  obtain ⟨_, others, log', _⟩ := grown
  refine ⟨more ++ others, ?_, event, List.mem_append_left _ member, isGood⟩
  rw [log', log, List.append_assoc]

theorem Logged.after {good any : Payload → Prop} (logged : Logged good next final)
    (grown : Grown any world next) : Logged good world final := by
  obtain ⟨more, log, event, member, isGood⟩ := logged
  obtain ⟨_, others, log', _⟩ := grown
  refine ⟨others ++ more, ?_, event, List.mem_append_right _ member, isGood⟩
  rw [log, log', List.append_assoc]

/-- The log has grown by events with these payloads, and no failure policy has
been applied. -/
def Wrote (payloads : List Payload) (world next : World) : Prop :=
  next.policies = world.policies ∧
    ∃ batch, next.log = world.log ++ batch ∧ batch.map Event.payload = payloads

theorem Wrote.grown (wrote : Wrote payloads world next) (all : ∀ payload ∈ payloads, good payload) :
    Grown good world next := by
  obtain ⟨samePolicies, batch, log, rfl⟩ := wrote
  exact ⟨samePolicies, batch, log, fun event member => all _ (List.mem_map_of_mem member)⟩

theorem Wrote.logged
    (wrote : Wrote payloads world next) (listed : payload ∈ payloads) (isGood : good payload) :
    Logged good world next := by
  obtain ⟨_, batch, log, rfl⟩ := wrote
  obtain ⟨event, member, rfl⟩ := List.mem_map.mp listed
  exact ⟨batch, log, event, member, isGood⟩

theorem Wrote.of_appended {middle : World} {version : Nat} (idle : Idle setting world middle)
    (drafted : DraftsOf inst payloads drafts)
    (appended : Appended middle (resequence version drafts) next) : Wrote payloads world next := by
  obtain ⟨clock, issued, rfl, _, _⟩ := idle
  obtain ⟨rows, rfl⟩ := appended
  exact ⟨rfl, _, rfl, (payload_resequence version drafts).trans drafted.1⟩

/-- What a drive appends once it has recovered the steps of a dead worker. -/
def proceeds (payload : Payload) : Prop :=
  steers payload ∧ ¬ recovers payload

/-- What a drive appends apart from that and from starting steps. -/
def concludes (payload : Payload) : Prop :=
  proceeds payload ∧ ∀ stepId, ¬ starts payload stepId

/-! ## Code in an undisturbed world -/

/-- A semantics in which a drive keeps to its conduct and is not disturbed, unless
it may break. -/
structure Calm (setting : Setting) (sem : Semantics World Op Op.Result) (breaks : Prop) :
    Prop where
  admitted : ∀ world op response next, sem world op response next →
    answers setting world op response next
  granted : ∀ world op response next, sem world op response next →
    Granted setting world op response ∨ breaks
  conduct : ∀ world op response next, sem world op response next →
    Conduct setting noCare world op

/-- Code that ends as described, unless it may break. -/
abbrev Runs {α : Type} (sem : Semantics World Op Op.Result) (breaks : Prop)
    (post : α → World → Prop) (code : Code α) (world : World) : Prop :=
  Safe sem (fun _ _ => True) post (fun _ _ => breaks) code world

section Runs

variable {sem : Semantics World Op Op.Result} {breaks : Prop}

/-- What is known of code whatever the journal answers. -/
theorem Runs.knowing {code : Code α} {known post : α → World → Prop}
    (runs : Runs sem breaks post code world) (calm : Calm setting sem breaks)
    (keeps : Keeps setting noCare known code world) :
    Runs sem breaks (fun value next => known value next ∧ post value next) code world :=
  ((Safe.restrict calm.admitted keeps).and runs).mono (fun _ _ _ => trivial)
    (fun _ _ both => both) fun _ _ both => both.2

theorem runs_lift_bind {α β : Type} {result : Except Exn α} {value : α} {rest : α → Code β}
    {post : β → World → Prop} (found : result = .ok value)
    (runs : Runs sem breaks post (rest value) world) :
    Runs sem breaks post (lift result >>= rest) world := by
  subst found
  exact runs

variable (calm : Calm setting sem breaks) {dispatch : List (String × Nat)}
  {budget : Option BudgetView} {candidate : String × Nat} {elements : List α}

include calm

theorem runs_now : Runs sem breaks (fun _ next => Idle setting world next) Code.now world := by
  refine ⟨trivial, fun time next told => ?_⟩
  obtain ⟨later, rfl⟩ := calm.admitted _ _ _ _ told
  exact ⟨time, world.issued, rfl, later, fun _ member => member⟩

theorem runs_newId : Runs sem breaks (fun _ next => Idle setting world next) Code.newId world := by
  refine ⟨trivial, fun id next told => ?_⟩
  obtain ⟨_, rfl⟩ := calm.admitted _ _ _ _ told
  exact ⟨world.clock, id :: world.issued, rfl, fun _ => le_rfl,
    fun _ member => List.mem_cons_of_mem _ member⟩

/-! ## Drafts -/

theorem runs_draftEvent (inst : WorkflowInstance) (payload : Payload) : Runs sem breaks
      (fun event next => Idle setting world next ∧ DraftsOf inst [payload] [event])
      (draftEvent inst payload) world := by
  refine (runs_newId calm).bind ?_
  intro id middle idle
  refine (runs_now calm).bind ?_
  intro time final idle'
  refine ⟨idle.trans idle', rfl, ?_⟩
  intro event member
  rw [List.mem_singleton] at member
  rw [member]
  rfl

theorem runs_drafts (inst : WorkflowInstance) (payloads : List Payload) : Runs sem breaks
      (fun events next => Idle setting world next ∧ DraftsOf inst payloads events)
      (Program.traverse (draftEvent inst) payloads) world := by
  apply safe_traverse fun done events next =>
    Idle setting world next ∧ DraftsOf inst done events
  · exact ⟨.refl setting world, .nil inst⟩
  · rintro before payload after _ events middle ⟨idle, drafted⟩
    refine (runs_draftEvent calm inst payload).imp ?_
    rintro event final ⟨idle', more⟩
    exact ⟨idle.trans idle', drafted.append more⟩

omit calm in
/-- Drafting in groups of payloads, one group for each element. -/
theorem runs_groups {kind : α → List Payload → Prop} {body : α → Code (List Event)}
    (each : ∀ element ∈ elements, ∀ middle, Runs sem breaks
      (fun events next => Idle setting middle next ∧
        ∃ payloads, DraftsOf inst payloads events ∧ kind element payloads) (body element) middle) :
    Runs sem breaks (fun groups next => Idle setting world next ∧
        ∃ parts : List (List Payload), DraftsOf inst parts.flatten groups.flatten ∧
          List.Forall₂ kind elements parts) (Program.traverse body elements) world := by
  apply safe_traverse fun done groups next => Idle setting world next ∧
    ∃ parts : List (List Payload), DraftsOf inst parts.flatten (List.flatten groups) ∧
      List.Forall₂ kind done parts
  · exact ⟨.refl setting world, [], .nil inst, .nil⟩
  · rintro before element after split groups middle ⟨idle, parts, drafted, all⟩
    refine (each element (by rw [split]; simp) middle).imp ?_
    rintro events final ⟨idle', payloads, more, isKind⟩
    refine ⟨idle.trans idle', parts ++ [payloads], ?_, ?_⟩
    · rw [List.flatten_append, List.flatten_append, List.flatten_singleton, List.flatten_singleton]
      exact drafted.append more
    · exact List.rel_append all (.cons isKind .nil)

omit calm in
/-- What holds of the payloads of every group holds of all. -/
theorem forall_mem_flatten {parts : List (List Payload)}
    (all : List.Forall₂ (fun _ payloads => ∀ payload ∈ payloads, good payload) elements parts) :
    ∀ payload ∈ parts.flatten, good payload := by
  induction all with
  | nil => exact List.forall_mem_nil _
  | cons first _ ih =>
    intro payload member
    rw [List.flatten_cons] at member
    exact (List.mem_append.mp member).elim (first payload) (ih payload)

/-! ## Appends -/

/-- Appending what a drive has drafted. -/
theorem runs_append (holds : Holds setting world inst) (drafted : DraftsOf inst payloads drafts)
    (steering : ∀ payload ∈ payloads, steers payload) (wakeup : Option Time) : Runs sem breaks
      (fun result next => Holds setting next result ∧
        Appended world (resequence world.log.length drafts) next)
      (append setting.definition inst drafts wakeup) world := by
  unfold append
  by_cases empty : drafts = []
  · subst empty
    exact ⟨holds, world.escalations, by simp [resequence]⟩
  rw [if_neg (by simpa using empty)]
  refine ⟨trivial, ?_⟩
  intro response next told
  obtain ⟨consistent, proper⟩ := calm.conduct _ _ _ _ told
  have steered : ∀ event ∈ resequence world.log.length drafts, steers event.payload :=
    forall_mem_resequence (drafted.forall_mem steering)
  have accepted : (replay world.log).AcceptsAll (resequence world.log.length drafts) := by
    have legal := (proper holds.version).sound.legal
    rw [holds.version] at legal
    exact legal.acceptsAll_of fun event member _ => accepts_of_steers (steered event member)
  rcases calm.admitted _ _ _ _ told with ⟨failure, rfl, _⟩ | ⟨committed, rfl⟩
  · rcases calm.granted _ _ _ _ told with granted | mayBreak
    · cases granted (exists_commit consistent holds empty drafted.2 accepted)
    · exact mayBreak
  obtain ⟨_, _, _, _, _, rfl⟩ := commit_eq_ok committed
  obtain ⟨⟨result, folded⟩, _⟩ := holds.exists_fold accepted
  have tail := (fold_append holds).mp folded
  rw [holds.version]
  change Safe _ _ _ _ (lift (foldOnto setting.definition inst _)) _
  unfold foldOnto
  rw [tail]
  exact ⟨folded, _, rfl⟩

/-- Drafting and appending a list of payloads. -/
theorem runs_write (holds : Holds setting world inst)
    (steering : ∀ payload ∈ payloads, steers payload) (wakeup : Option Time) :
    Runs sem breaks
      (fun result next => Holds setting next result ∧ Wrote payloads world next)
      (do
        let drafts ← Program.traverse (draftEvent inst) payloads
        append setting.definition inst drafts wakeup)
      world := by
  refine (runs_drafts calm inst payloads).bind ?_
  rintro drafts middle ⟨idle, drafted⟩
  refine (runs_append calm (holds.idle idle) drafted steering wakeup).imp ?_
  rintro result next ⟨nextHolds, appended⟩
  exact ⟨nextHolds, .of_appended idle drafted appended⟩

/-! ## A wave -/

/-- What attempts of steps and the undoing of side effects come to. -/
structure Carries (setting : Setting) (sem : Semantics World Op Op.Result) (config : Config)
    (outcomes : StepOutcome → Prop) (breaks : Prop) : Prop where
  attempts : ∀ step ∈ setting.definition.steps, ∀ ctx, ctx.agentType = step.agentType →
    ∀ world, Runs sem breaks (fun outcome _ => outcomes outcome)
      (runAttempt config ctx step.timeoutSeconds) world
  undoes : ∀ inst world, Runs sem breaks (fun _ _ => True) (undoSideEffects config inst) world
  compensates : ∀ inst, ∀ step ∈ setting.definition.steps, ∀ world,
    Safe sem (fun _ _ => True) (fun _ _ => True)
      (fun failure _ => failure.isException = true ∨ breaks)
      (runStepCompensation config inst step) world

omit calm in
/-- Nothing is asked of attempts where code may break. -/
theorem Carries.of_breaks (config : Config) (mayBreak : breaks) :
    Carries setting sem config (fun _ => True) breaks := by
  constructor
  · intro _ _ _ _ world
    exact safe_of_forall (fun _ _ => trivial) (fun _ _ => trivial) (fun _ _ => mayBreak) _ world
  · intro _ world
    exact safe_of_forall (fun _ _ => trivial) (fun _ _ => trivial) (fun _ _ => mayBreak) _ world
  · intro _ _ _ world
    exact safe_of_forall (fun _ _ => trivial) (fun _ _ => trivial) (fun _ _ => .inr mayBreak) _
      world

/-- Making a step ready. -/
theorem runs_readyEvents {stepId : String} (stored : stepId ∈ inst.stepStates.keys) :
    Runs sem breaks (fun events next => Idle setting world next ∧
        ∃ payloads, DraftsOf inst payloads events ∧ ∀ payload ∈ payloads, concludes payload)
      (readyEvents inst stepId) world := by
  refine runs_lift_bind (stepState_of_mem stored) ?_
  by_cases pending : (inst.stepOr stepId).status = .pending
  · rw [if_pos pending]
    refine (runs_draftEvent calm inst _).bind ?_
    rintro event next ⟨idle, drafted⟩
    refine ⟨idle, _, drafted, ?_⟩
    intro payload member
    rw [List.mem_singleton.mp member]
    exact ⟨⟨⟨rfl, .inl rfl⟩, id⟩, fun _ => id⟩
  · rw [if_neg pending]
    exact ⟨.refl setting world, [], .nil inst, List.forall_mem_nil _⟩

theorem runs_startEvents (workerId : String) (stored : candidate.1 ∈ inst.stepStates.keys) :
    Runs sem breaks (fun events next => Idle setting world next ∧
        ∃ payloads, DraftsOf inst payloads events ∧ ∀ payload ∈ payloads, proceeds payload)
      (startEvents inst workerId candidate) world := by
  refine (runs_readyEvents calm stored).bind ?_
  rintro readied middle ⟨idle, payloads, drafted, all⟩
  refine (runs_draftEvent calm inst _).bind ?_
  rintro started final ⟨idle', more⟩
  refine ⟨idle.trans idle', _, drafted.append more, forall_mem_concat ?_ ⟨trivial, id⟩⟩
  exact fun payload old => (all payload old).1

/-- Starting the steps of a wave. -/
theorem runs_startWave {workerId : String} (holds : Holds setting world inst)
    (known : ∀ candidate ∈ dispatch, candidate.1 ∈ setting.definition.stepIds) :
    Runs sem breaks (fun _ next => Grown proceeds world next)
      (do
        let started ← Program.traverse (startEvents inst workerId) dispatch
        append setting.definition inst started.flatten)
      world := by
  refine (runs_groups fun candidate listed middle =>
    runs_startEvents calm workerId (holds.stored _ (known candidate listed))).bind ?_
  rintro groups middle ⟨idle, parts, drafted, each⟩
  have all := forall_mem_flatten each
  refine (runs_append calm (holds.idle idle) drafted
    (fun payload member => (all payload member).1) none).imp ?_
  rintro result next ⟨_, appended⟩
  exact (Wrote.of_appended idle drafted appended).grown all

theorem runs_budgetView : Runs sem breaks (fun _ _ => True) (budgetView config inst) world := by
  unfold budgetView
  cases config.budget with
  | none => trivial
  | some dailyLimit =>
    refine (runs_now calm).bind ?_
    intro now middle _
    cases dailyLimit with
    | none => trivial
    | some limit => exact ⟨trivial, fun _ _ _ => trivial⟩

theorem runs_runOne (carries : Carries setting sem config outcomes breaks)
    (stored : Stored setting.definition inst) (known : candidate.1 ∈ setting.definition.stepIds) :
    Runs sem breaks
      (fun result _ => (result.stepId, result.attempt) = candidate ∧ outcomes result.outcome)
      (runOne config setting.definition inst budget candidate) world := by
  obtain ⟨stepId, attempt⟩ := candidate
  obtain ⟨step, member, rfl⟩ := List.mem_map.mp known
  refine runs_lift_bind (stepOf_of_mem member) ?_
  refine runs_lift_bind (stored.step member) ?_
  refine (runs_now calm).bind ?_
  intro started middle _
  refine (carries.attempts step member _ rfl middle).bind ?_
  intro outcome ended allowed
  refine (runs_now calm).bind ?_
  intro finished final _
  exact ⟨trivial, fun _ _ _ => ⟨rfl, allowed⟩⟩

/-- Running the attempts of a wave. -/
theorem runs_gather (carries : Carries setting sem config outcomes breaks)
    (stored : Stored setting.definition inst)
    (known : ∀ candidate ∈ dispatch, candidate.1 ∈ setting.definition.stepIds) : Runs sem breaks
      (fun results _ => results.map (fun result => (result.stepId, result.attempt)) = dispatch ∧
        ∀ result ∈ results, outcomes result.outcome)
      (gather (runOne config setting.definition inst budget) dispatch) world := by
  refine Safe.imp (safe_gather (fun before ended _ =>
    (∀ failure, .error failure ∈ ended → breaks) ∧
      ∀ results : List AttemptResult, ended = results.map .ok →
        results.map (fun result => (result.stepId, result.attempt)) = before ∧
          ∀ result ∈ results, outcomes result.outcome) ?_ ?_ ?_) ?_
  · refine ⟨fun _ member => absurd member List.not_mem_nil, ?_⟩
    intro results none
    rw [List.map_eq_nil_iff.mp none.symm]
    exact ⟨rfl, List.forall_mem_nil _⟩
  · rintro before candidate after split ended middle ⟨noneRaised, soFar⟩
    have listed : candidate ∈ dispatch := by
      rw [split]
      simp
    refine Safe.mono (runs_runOne calm carries stored (known candidate listed))
      (fun _ _ _ => trivial) ?_ ?_
    · rintro value _ ⟨same, allowed⟩
      refine ⟨?_, ?_⟩
      · intro failure member
        rcases List.mem_append.mp member with old | new
        · exact noneRaised failure old
        · cases List.mem_singleton.mp new
      · intro results all
        obtain ⟨first, last, rfl, firstOk, lastOk⟩ := List.map_eq_append_iff.mp all.symm
        obtain ⟨result, rfl, resultOk⟩ := List.map_eq_singleton_iff.mp lastOk
        cases resultOk
        obtain ⟨keys, allAllowed⟩ := soFar first firstOk.symm
        rw [List.map_append, keys, List.map_singleton, same]
        exact ⟨rfl, forall_mem_concat allAllowed allowed⟩
    · intro failure _ mayBreak
      refine ⟨fun _ _ => mayBreak, ?_⟩
      intro results all
      obtain ⟨first, last, rfl, _, lastOk⟩ := List.map_eq_append_iff.mp all.symm
      obtain ⟨result, rfl, resultOk⟩ := List.map_eq_singleton_iff.mp lastOk
      cases resultOk
  · exact fun ended failure _ holds member => holds.1 failure member
  · exact fun results _ holds => holds.2 results rfl

omit calm in
theorem concludes_of_mem_results
    (listed : payload ∈ results.flatMap resultPayloads) : concludes payload := by
  obtain ⟨result, _, note | rfl⟩ := mem_resultPayloads listed
  · cases note <;> exact ⟨⟨trivial, id⟩, fun _ => id⟩
  · unfold outcomePayload
    cases result.outcome <;> exact ⟨⟨trivial, id⟩, fun _ => id⟩

omit calm in
theorem concludes_of_mem_retries {now : Time}
    (listed : payload ∈ results.filterMap (retryPayload now)) : concludes payload := by
  rw [filterMap_retryPayload] at listed
  obtain ⟨result, _, rfl⟩ := List.mem_map.mp listed
  exact ⟨⟨trivial, id⟩, fun _ => id⟩

omit calm in
theorem concludes_moved (source target : WorkflowStatus) (reason : Option String) :
    concludes (.instanceStatusChanged source target reason) :=
  ⟨⟨trivial, id⟩, fun _ => id⟩

omit calm in
theorem concludes_raised (escalation : Escalation) : concludes (.escalationRaised escalation) :=
  ⟨⟨trivial, id⟩, fun _ => id⟩

/-- Raising an escalation under a new identifier. -/
theorem runs_raise (inst : WorkflowInstance) (make : String → Escalation) :
    Runs sem breaks
      (fun event next => Idle setting world next ∧
        ∃ id, DraftsOf inst [.escalationRaised (make id)] [event])
      (do
        let id ← Code.newId
        draftEvent inst (.escalationRaised (make id)))
      world := by
  refine (runs_newId calm).bind ?_
  intro id middle idle
  refine (runs_draftEvent calm inst _).imp ?_
  rintro event final ⟨idle', drafted⟩
  exact ⟨idle.trans idle', id, drafted⟩

theorem runs_raiseReviewEscalations {reviews : List (String × ReviewRequest)}
    (holds : Holds setting world inst) : Runs sem breaks (fun _ next => Grown concludes world next)
      (raiseReviewEscalations setting.definition inst reviews) world := by
  refine (runs_now calm).bind ?_
  intro now timed timedIdle
  have raising : Runs sem breaks
      (fun events next => Idle setting timed next ∧ ∃ payloads,
        DraftsOf inst payloads events ∧ ∀ payload ∈ payloads, concludes payload)
      (Program.traverse (reviewEvent inst now) reviews) timed := by
    apply safe_traverse fun _ events next => Idle setting timed next ∧ ∃ payloads,
      DraftsOf inst payloads events ∧ ∀ payload ∈ payloads, concludes payload
    · exact ⟨.refl setting timed, [], .nil inst, List.forall_mem_nil _⟩
    · rintro before review after _ events middle ⟨idle, payloads, drafted, all⟩
      refine (runs_raise calm inst (reviewEscalation now review)).imp ?_
      rintro event final ⟨idle', id, more⟩
      exact ⟨idle.trans idle', _, drafted.append more, forall_mem_concat all (concludes_raised _)⟩
  refine raising.bind ?_
  rintro raised middle ⟨idle, payloads, drafted, all⟩
  refine (runs_draftEvent calm inst _).bind ?_
  rintro parked parkedWorld ⟨parkIdle, parkDrafted⟩
  have wholeIdle := (timedIdle.trans idle).trans parkIdle
  have everything : ∀ payload ∈ payloads ++ [.instanceStatusChanged .running .waitingApproval
      (some ("review requested: " ++ String.intercalate ", " (reviews.map Prod.fst)))],
      concludes payload :=
    forall_mem_concat all (concludes_moved _ _ _)
  refine (runs_append calm (holds.idle wholeIdle) (drafted.append parkDrafted)
    (fun payload member => (everything payload member).1.1) none).imp ?_
  rintro result next ⟨_, appended⟩
  exact (Wrote.of_appended wholeIdle (drafted.append parkDrafted) appended).grown everything

theorem runs_recordWaveSpend :
    Runs sem breaks (fun _ next => Idle setting world next) (recordWaveSpend config inst results)
      world := by
  unfold recordWaveSpend
  cases config.budget with
  | none => exact .refl setting world
  | some limit =>
    dsimp only
    split
    · refine (runs_now calm).bind ?_
      intro now middle idle
      refine ⟨trivial, fun _ final told => ?_⟩
      cases calm.admitted _ _ _ _ told
      exact idle
    · exact .refl setting world

/-- What the finished attempts lead to. -/
theorem runs_settleWave (holds : Holds setting world inst) :
    Runs sem breaks (fun _ next => Grown concludes world next)
      (settleWave config setting.definition inst results) world := by
  refine Safe.bind_bind (runs_write calm holds
    (fun _ listed => (concludes_of_mem_results listed).1.1) none) ?_
  rintro told recorded ⟨toldHolds, wrote⟩
  refine (runs_recordWaveSpend calm).bind ?_
  intro _ spent spentIdle
  refine (runs_now calm).bind ?_
  intro now timed timedIdle
  have idle := spentIdle.trans timedIdle
  refine Safe.bind_bind (runs_write calm (toldHolds.idle idle)
    (fun _ listed => (concludes_of_mem_retries listed).1.1) none) ?_
  rintro scheduled final ⟨scheduledHolds, wroteRetries⟩
  have grown : Grown concludes world final :=
    ((wrote.grown fun _ => concludes_of_mem_results).trans (.of_idle idle)).trans
      (wroteRetries.grown fun _ => concludes_of_mem_retries)
  by_cases none : reviewsOf results = []
  · rw [none]
    exact grown
  · rw [if_neg (by simpa using none)]
    exact (runs_raiseReviewEscalations calm scheduledHolds).imp
      fun _ _ later => grown.trans later

/-- A wave has been dispatched and has come to its end. -/
structure WaveDone (setting : Setting) (outcomes : StepOutcome → Prop)
    (dispatch : List (String × Nat)) (results : List AttemptResult) (world next : World) :
    Prop where
  keys : results.map (fun result => (result.stepId, result.attempt)) = dispatch
  step : ∀ result ∈ results, result.step ∈ setting.definition.steps ∧
    result.step.stepId = result.stepId
  outcomes : ∀ result ∈ results, outcomes result.outcome
  settled : WaveSettled world next results
  started : ∀ candidate ∈ dispatch, Logged (starts · candidate.1) world next
  grown : Grown proceeds world next

theorem runs_dispatchWave {lease : Lease}
    {plan : Plan} {now : Time} (carries : Carries setting sem config outcomes breaks)
    (atHead : AtHead setting noCare world inst) (runs : inst.status = .running)
    (sound : SoundPlan inst setting.definition now plan)
    (current : setting.monotoneClock → now ≤ world.clock) (nonempty : plan.dispatch ≠ []) :
    Runs sem breaks
      (fun _ next => ∃ results, WaveDone setting outcomes plan.dispatch results world next)
      (dispatchWave config setting.definition lease inst plan.dispatch) world := by
  have known := sound.known_dispatch
  refine Safe.bind_bind ((runs_startWave calm atHead.holds known).knowing calm
    (keeps_startWave atHead runs sound current nonempty)) ?_
  rintro started startWorld ⟨⟨startHolds, startedWave⟩, startGrown⟩
  refine ((runs_budgetView calm).knowing calm
    (keeps_budgetView startedWave.consistent started)).bind ?_
  rintro budget viewed ⟨viewIdle, _⟩
  refine ((runs_gather calm carries startHolds.stored known).knowing calm
    (keeps_runWave False.elim (startedWave.idle viewIdle))).bind ?_
  rintro results final ⟨⟨sameLog, samePolicies, ended⟩, keys, allowed⟩
  have held : Holds setting final started := by
    unfold Holds
    rw [sameLog, viewIdle.log]
    exact startHolds
  have waited : Grown proceeds startWorld final := by
    obtain ⟨_, _, rfl, _, _⟩ := viewIdle
    exact ⟨samePolicies, [], by rw [sameLog]; simp, List.forall_mem_nil _⟩
  refine ((runs_settleWave calm held).knowing calm
    (keeps_settleWave held False.elim ended)).imp ?_
  rintro result next ⟨⟨_, settled⟩, settleGrown⟩
  have later : Grown proceeds startWorld next :=
    waited.trans (settleGrown.mono fun _ concluding => concluding.1)
  refine ⟨results, ?_⟩
  constructor
  case keys => exact keys
  case step => exact ended.step
  case outcomes => exact allowed
  case settled => exact settled
  case started =>
    intro candidate listed
    obtain ⟨batch, log, launched⟩ := startedWave.launched
    obtain ⟨event, member, isStart⟩ := launched candidate listed
    exact Logged.grown ⟨batch, log, event, member, isStart⟩ later
  case grown => exact startGrown.trans later

end Runs

end AgentForge.Refinement
