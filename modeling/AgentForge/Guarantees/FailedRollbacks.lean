import AgentForge.Engine.Petitions
import AgentForge.Guarantees.Rollbacks
import AgentForge.Refinement.Reach

/-!
# What a failed rollback records

A rollback undoes effects and runs handlers one after the other, and appends what
it has done in one batch at the end.  If a compensation fails, the batch is the
one of an escalation instead: what has been undone by then is recorded nowhere.
So a failed rollback leaves a complete record exactly when nothing was undone,
that is, when the first compensation that it attempts fails already.
-/

namespace AgentForge.Guarantees

open Domain Effects Engine Events Library Protocol
open AgentForge.Refinement (consistent_of_reachable)

variable {batch : List Event} {setting : Setting} {op : Op} {call : EffectCall}
  {row : OutboxEntry}

/-! ## Logs of instances that are not rolled back -/

section Records

private theorem status_afterAll_rolledBack {state : State}
    (rolledBack : state.status = .rolledBack) (accepts : state.AcceptsAll batch) :
    (state.afterAll batch).status = .rolledBack := by
  induction batch generalizing state with
  | nil => exact rolledBack
  | cons event rest ih =>
    have terminal : state.status.isTerminal = true := by
      rw [rolledBack]
      rfl
    exact ih ((status_after_of_isTerminal accepts.1 terminal).trans rolledBack) accepts.2

private theorem status_of_endsRolledBack {state : State}
    (ends : EndsRolledBack (batch.map Event.payload)) :
    (state.afterAll batch).status = .rolledBack := by
  obtain ⟨before, last, split, rolls⟩ := ends
  rcases List.eq_nil_or_concat batch with rfl | ⟨initial, final, rfl⟩
  · simp at split
  · rw [List.concat_eq_append] at split ⊢
    rw [List.map_append] at split
    have same : final.payload = last := by
      simpa using (List.append_inj' split rfl).2
    rw [State.afterAll_append]
    change ((State.afterAll state initial).advance final.payload).status = .rolledBack
    rw [same]
    cases last with
    | instanceStatusChanged source target reason =>
      cases target with
      | rolledBack => rfl
      | _ => exact rolls.elim
    | _ => exact rolls.elim

/-- If anything is recorded as undone, the instance is rolled back. -/
private structure RecordsLast (log : List Event) : Prop where
  nonempty : log ≠ []
  rolledBack : (∃ event ∈ log, recordsUndo event.payload) → (replay log).status = .rolledBack

private theorem RecordsLast.answers {world next : World}
    {response : op.Result} (law : RecordsLast world.log) (writes : op.writes)
    (answered : answers setting world op response next) : RecordsLast next.log := by
  cases logChange_of_answers answered with
  | same sameLog => exact sameLog ▸ law
  | @committed _ _ drafts expectedVersion _ _ _ committed =>
    obtain ⟨_, _, _, _, ⟨inst, folded⟩, rfl⟩ := commit_eq_ok committed
    refine ⟨List.append_ne_nil_of_left_ne_nil law.nonempty _, ?_⟩
    rintro ⟨event, member, records⟩
    dsimp only
    rw [replay_append]
    obtain ⟨base, baseOk, batchOk⟩ := exists_fold_of_append law.nonempty folded
    rcases List.mem_append.mp member with old | new
    · have accepts : (view world.log base).AcceptsAll _ := (view_of_fold_batch batchOk).1
      rw [view_of_fold baseOk] at accepts
      exact status_afterAll_rolledBack (law.rolledBack ⟨event, old, records⟩) accepts
    · apply status_of_endsRolledBack
      rw [payload_resequence]
      obtain ⟨draft, listed, same⟩ := exists_of_mem_resequence new
      exact writes.recorded ⟨draft, listed, same ▸ records⟩

/-- Nothing is recorded as undone in the log of a running instance. -/
theorem not_recordsUndo_of_running {world : World}
    {ends : World → Code (Option DriveReport) → Prop} {inst : WorkflowInstance}
    {definition : Option WorkflowDefinition} (reachable : Reachable setting ends world)
    (folded : fold world.log definition = .ok inst) (running : inst.status = .running) :
    ∀ event ∈ world.log, ¬ recordsUndo event.payload := by
  have law : RecordsLast world.log := by
    clear folded running
    induction reachable with
    | fresh isFresh =>
      obtain ⟨event, clock, issued, _, _, isGenesis, rfl⟩ := isFresh
      refine ⟨List.cons_ne_nil _ _, ?_⟩
      rintro ⟨other, member, records⟩
      rw [List.mem_singleton.mp member] at records
      unfold Event.isGenesis at isGenesis
      split at isGenesis
      · next created =>
        rw [created] at records
        exact records.elim
      · cases isGenesis
    | @act world next residual actor _ _ steps _ ih =>
      have believable (world : World) (op : Op) (response : op.Result) (next : World)
          (answered : answers setting world op response next) :
          Believable (fun _ => True) op response :=
        (believable_of_answers answered).anyDefinition
      have kept (world : World) (op : Op) (response : op.Result) (next : World)
          (law : RecordsLast world.log) (writes : op.writes)
          (answered : answers setting world op response next) : RecordsLast next.log :=
        law.answers writes answered
      exact (writes_program believable setting actor world).preserves kept steps ih
  intro event member records
  have status := law.rolledBack ⟨event, member, records⟩
  rw [← view_of_fold folded] at status
  exact absurd (running.symm.trans status) (by decide)

end Records

/-! ## Compensated rows -/

/-- The row of the key is compensated. -/
def Compensated (outside : Outside) (key : String) : Prop :=
  ∃ row, outside.rows.get? key = some row ∧ row.status = .compensated

section Outbox

variable {guard : SideEffectGuard} {start outside next : Outside} {key : String}

theorem compensated_claim (entry : OutboxEntry) : Compensated { outside with
      rows := outside.rows.set entry.idempotencyKey (outside.claimed entry) } key ↔
        Compensated outside key := by
  unfold Compensated Outside.claimed
  simp only [Dict.get?_set]
  by_cases same : key = entry.idempotencyKey
  · subst same
    cases stored : outside.rows.get? entry.idempotencyKey <;> simp
  · simp [same]

theorem compensated_mark (marked : String) (marking : Marking) :
    Compensated { outside with rows := outside.marked marked marking } key ↔
      if key = marked then ∃ row, outside.rows.get? key = some row ∧
        (marking.apply row).status = .compensated else Compensated outside key := by
  unfold Compensated
  simp only [get?_marked]
  by_cases same : key = marked
  · subst same
    cases stored : outside.rows.get? key <;> simp
  · simp [same]

/-- The marks of `execute` hit rows that are not compensated. -/
private def KeepsRecord (outside : Outside) : GuardOp → Prop
  | .mark marked (.failed _) => ¬ Compensated outside marked
  | .mark marked (.executed _ _) => ¬ Compensated outside marked
  | .mark _ (.compensationFailed _) => True
  | .mark _ .compensated => False
  | _ => True

private theorem compensated_of_keepsRecord {op : GuardOp} {response : op.Result}
    (keeps : KeepsRecord outside op) (answered : outside.answers op response next) :
    Compensated next key ↔ Compensated outside key := by
  cases op with
  | claim entry =>
    obtain ⟨_, rfl⟩ := answered
    exact compensated_claim entry
  | mark marked marking =>
    obtain rfl : next = { outside with rows := outside.marked marked marking } := answered
    rw [compensated_mark]
    split
    · next same =>
      subst same
      cases marking with
      | failed error =>
        refine ⟨?_, fun compensated => absurd compensated keeps⟩
        rintro ⟨row, _, ⟨⟩⟩
      | executed result providerRef =>
        refine ⟨?_, fun compensated => absurd compensated keeps⟩
        rintro ⟨row, _, ⟨⟩⟩
      | compensationFailed error => exact Iff.rfl
      | compensated => exact keeps.elim
    · rfl
  | listForInstance =>
    obtain ⟨_, rfl⟩ := answered
    rfl
  | execute => rcases answered with rfl | rfl <;> rfl
  | reconcile =>
    cases answered
    rfl
  | compensate =>
    cases answered
    rfl

private theorem keepsRecord_carryOut {supportsKey resuming : Bool}
    (unsettled : ¬ Compensated outside (guard.idempotencyKey call)) :
    Program.Safe Outside.answers KeepsRecord (fun _ _ => True) (fun _ _ => True)
      (guard.carryOut call supportsKey resuming) outside := by
  have kept (current : Outside) (op : GuardOp)
      (unsettled : ¬ Compensated current (guard.idempotencyKey call))
      (asks : op.asks (guard.request call)) : KeepsRecord current op ∧
        ∀ response next, current.answers op response next →
          ¬ Compensated next (guard.idempotencyKey call) := by
    cases op with
    | execute =>
      refine ⟨trivial, ?_⟩
      rintro response next (rfl | rfl) <;> exact unsettled
    | reconcile =>
      refine ⟨trivial, ?_⟩
      rintro response next rfl
      exact unsettled
    | _ => exact asks.elim
  have asked : Program.Safe Outside.answers KeepsRecord
      (fun _ current => True ∧ ¬ Compensated current (guard.idempotencyKey call))
      (fun _ current => ¬ Compensated current (guard.idempotencyKey call))
      (guard.ask call supportsKey resuming) outside :=
    (yields_ask guard call supportsKey resuming).safe kept (fun _ _ holds => holds) unsettled
  refine asked.settle.bind ?_
  rintro (failure | result) current told
  · dsimp only
    split
    · exact ⟨told, fun _ _ _ => trivial⟩
    · trivial
  · dsimp only
    split
    · exact ⟨told.2, fun _ _ _ => trivial⟩
    · exact ⟨told.2, fun _ _ _ => trivial⟩

private theorem keepsRecord_afterClaim {supportsKey : Bool}
    (stored : outside.rows.get? (guard.idempotencyKey call) = some row) :
    Program.Safe Outside.answers KeepsRecord (fun _ _ => True) (fun _ _ => True)
      (guard.afterClaim call supportsKey row) outside := by
  have unsettled (found : row.status ≠ .compensated) :
      ¬ Compensated outside (guard.idempotencyKey call) := by
    rintro ⟨other, isOther, compensated⟩
    cases stored.symm.trans isOther
    exact found compensated
  unfold SideEffectGuard.afterClaim
  cases found : row.status with
  | executed => trivial
  | compensated => trivial
  | pending => exact keepsRecord_carryOut (unsettled (by rw [found]; decide))
  | failed => exact keepsRecord_carryOut (unsettled (by rw [found]; decide))

/-- Executing an effect leaves the set of compensated rows as it is. -/
theorem compensated_execute {residual : GuardCode Outcome}
    (run : Program.Steps Outside.answers outside (guard.execute call) next residual) :
    Compensated next key ↔ Compensated outside key := by
  have safe : Program.Safe Outside.answers KeepsRecord (fun _ _ => True) (fun _ _ => True)
      (guard.execute call) outside := by
    unfold SideEffectGuard.execute
    cases guard.provider call.providerName with
    | error failure => trivial
    | ok provider =>
      refine ⟨trivial, ?_⟩
      rintro row _ ⟨rfl, rfl⟩
      exact keepsRecord_afterClaim (Dict.get?_set_self _ _ _)
  have kept (current : Outside) (op : GuardOp) (response : op.Result) (later : Outside)
      (law : Compensated current key ↔ Compensated outside key) (keeps : KeepsRecord current op)
      (answered : current.answers op response later) :
      Compensated later key ↔ Compensated outside key :=
    (compensated_of_keepsRecord keeps answered).trans law
  exact safe.preserves kept run Iff.rfl

/-- Rollbacks of the guard only add to the compensated rows. -/
private def AddsRecord : GuardOp → Prop
  | .mark _ (.compensationFailed _) => True
  | .mark _ .compensated => True
  | .mark _ _ => False
  | .claim _ => False
  | _ => True

private theorem compensated_of_addsRecord {op : GuardOp} {response : op.Result}
    (adds : AddsRecord op) (answered : outside.answers op response next)
    (compensated : Compensated outside key) : Compensated next key := by
  cases op with
  | mark marked marking =>
    obtain rfl : next = { outside with rows := outside.marked marked marking } := answered
    rw [compensated_mark]
    split
    · obtain ⟨row, stored, status⟩ := compensated
      cases marking with
      | compensated => exact ⟨row, stored, rfl⟩
      | compensationFailed error => exact ⟨row, stored, status⟩
      | failed | executed => exact adds.elim
    · exact compensated
  | claim => exact adds.elim
  | listForInstance | execute | reconcile | compensate =>
    refine (compensated_of_keepsRecord ?_ answered).mpr compensated
    trivial

private theorem yields_undo (instanceId tenantId : String) (rows : List OutboxEntry) :
    Program.Yields AddsRecord (fun _ => True) (guard.undo instanceId tenantId rows) := by
  induction rows with
  | nil => trivial
  | cons row rest ih =>
    unfold SideEffectGuard.undo
    cases guard.provider row.provider with
    | error failure => trivial
    | ok provider =>
      refine ⟨trivial, ?_⟩
      rintro (failure | compensation) _ _
      · change Program.Yields _ _ (ite _ _ _)
        split
        · exact ⟨trivial, fun _ _ _ => trivial⟩
        · trivial
      · refine ⟨trivial, fun _ _ _ => ?_⟩
        change Program.Yields _ _ (guard.undo instanceId tenantId rest >>= _)
        exact Program.Safe.bind ih fun _ _ _ => trivial

/-- What is compensated stays so while the guard undoes rows. -/
theorem compensated_undo {instanceId tenantId : String} {rows : List OutboxEntry}
    {residual : GuardCode (List Outcome)}
    (run : Program.Steps Outside.answers outside (guard.undo instanceId tenantId rows) next
      residual) (compensated : Compensated outside key) : Compensated next key := by
  have kept (current : Outside) (op : GuardOp) (response : op.Result) (later : Outside)
      (holds : Compensated current key) (adds : AddsRecord op)
      (answered : current.answers op response later) : Compensated later key :=
    compensated_of_addsRecord adds answered holds
  exact (yields_undo instanceId tenantId rows).preserves kept run compensated

end Outbox

/-! ## The phases of a rollback -/

section Phases

variable {setting : Setting} (surroundings : Surroundings setting) (guard : SideEffectGuard)
  (config : Config) (inst : WorkflowInstance)

/-- The handlers that succeed when they are run one after the other until one
fails. -/
def handledFrom : List WorkflowStep → surroundings.State → List WorkflowStep
  | [], _ => []
  | step :: rest, state =>
      match Program.evaluate (surroundings.answer guard) (runStepCompensation config inst step)
        state with
      | (.ok _, next) => step :: handledFrom rest next
      | (.error _, _) => []

/-- The steps whose compensation handler returns success in a rollback. -/
def handledSteps (state : surroundings.State) : List WorkflowStep :=
  match Program.evaluate (surroundings.answer guard) (undoSideEffects config inst) state with
  | (.ok (.ok _), next) =>
      match stepsToCompensate inst setting.definition.steps.reverse with
      | .ok steps => handledFrom surroundings guard config inst steps next
      | .error _ => []
  | _ => []

/-- The rows that a rollback undoes, in its order. -/
def rowsToUndo (state : surroundings.State) : List OutboxEntry :=
  if config.hasSideEffects then
    ((surroundings.site state).outside.listed inst.instanceId inst.tenantId .executed).reverse
  else
    []

/-- The surroundings when a rollback has listed those rows. -/
def onceListed (state : surroundings.State) : surroundings.State :=
  if config.hasSideEffects then
    (surroundings.guard state (.listForInstance inst.instanceId inst.tenantId .executed)).2
  else
    state

/-- The first compensation that a rollback attempts fails: the one of the newest
executed effect or, without any, the first handler. -/
def FirstFails (state : surroundings.State) : Prop :=
  match rowsToUndo surroundings config inst state with
  | row :: _ =>
      (surroundings.guard (onceListed surroundings config inst state)
        (.compensate row.provider
          (SideEffectGuard.undoRequest inst.instanceId inst.tenantId row) row.recorded)).1.isOk =
        false
  | [] => ∀ step rest, stepsToCompensate inst setting.definition.steps.reverse =
      .ok (step :: rest) →
        (Program.evaluate (surroundings.answer guard) (runStepCompensation config inst step)
          (onceListed surroundings config inst state)).1.isOk = false

/-- As far as the log knows effects, it agrees with the outbox on which of them
are compensated. -/
def Agrees (setting : Setting) (site : Site) : Prop :=
  ∀ inst, fold site.journal.log (some setting.definition) = .ok inst →
    ∀ ref ∈ inst.sideEffects,
      (ref.status = .compensated ↔ Compensated site.outside ref.idempotencyKey)

/-- The log says what a rollback from `state` to `final` has undone. -/
structure Recorded (state final : surroundings.State) : Prop where
  effects : ∀ key, ¬ Compensated (surroundings.site state).outside key →
    Compensated (surroundings.site final).outside key →
      ∃ event ∈ (surroundings.site final).journal.log, ∃ stepId result,
        event.payload = .sideEffectCompensated stepId key result
  steps : ∀ step ∈ handledSteps surroundings guard config inst state,
    ∃ event ∈ (surroundings.site final).journal.log, ∃ action,
      event.payload = .stepCompensated step.stepId action
  agrees : Agrees setting (surroundings.site state) → Agrees setting (surroundings.site final)
  notAgain : ∀ step ∈ handledSteps surroundings guard config inst state, ∀ later,
    fold (surroundings.site final).journal.log (some setting.definition) = .ok later →
      ∀ steps, stepsToCompensate later setting.definition.steps.reverse = .ok steps → step ∉ steps

end Phases

section Runs

variable {setting : Setting} {surroundings : Surroundings setting} {guard : SideEffectGuard}
  {config : Config} {inst : WorkflowInstance} {state final : surroundings.State}
  {site next : Site} {ran : Except Exn (List Outcome)} {middle : surroundings.State}
  {rest : List OutboxEntry} {report : DriveReport}

/-- A run to the end, as a run of the site. -/
private theorem steps_site {α : Type} {code : Code α} {result : Except Exn α}
    (evaluated : Program.evaluate (surroundings.answer guard) code state = (result, final)) :
    Program.Steps (wired setting guard) (surroundings.site state) code (surroundings.site final)
      (Program.ended result) := by
  have run := Program.steps_evaluate (surroundings.wired_answer guard) code state
  rwa [evaluated] at run

/-- Neither the log nor the set of compensated rows has changed. -/
private structure Aside (site next : Site) : Prop where
  log : next.journal.log = site.journal.log
  compensated : ∀ key, Compensated next.outside key ↔ Compensated site.outside key

private theorem Aside.refl (site : Site) : Aside site site :=
  ⟨rfl, fun _ => Iff.rfl⟩

private theorem Aside.trans {later : Site} (first : Aside site next) (second : Aside next later) :
    Aside site later :=
  ⟨second.log.trans first.log, fun key => (second.compensated key).trans (first.compensated key)⟩

/-- What handlers may ask for. -/
private def asks : Op → Bool
  | .appendNew .. => false
  | .compensateInstance .. => false
  | _ => true

private theorem log_of_asks {world later : World} {response : op.Result}
    (isAsked : asks op = true) (answered : answers setting world op response later) :
    later.log = world.log := by
  cases logChange_of_answers answered with
  | same sameLog => exact sameLog
  | committed => cases isAsked

private theorem aside_of_asks {response : op.Result} (isAsked : asks op = true)
    (answered : wired setting guard site op response next) : Aside site next := by
  by_cases unguarded : guarded op = false
  · obtain ⟨answered, outside⟩ := (wired_of_not_guarded unguarded).mp answered
    exact ⟨log_of_asks isAsked answered, fun key => by rw [outside]⟩
  · cases op with
    | executeEffect =>
      obtain ⟨journal, residual, run, _⟩ := answered
      exact ⟨by rw [journal], fun key => compensated_execute run⟩
    | compensateInstance => cases isAsked
    | _ => exact absurd rfl unguarded

private theorem asks_of_attempts {ctx : StepContext} (attempts : op.attempts ctx) :
    asks op = true := by
  cases op with
  | appendNew | compensateInstance => exact attempts.elim
  | _ => rfl

private theorem yields_runStepCompensation (step : WorkflowStep) :
    Program.Yields (fun op => asks op = true) (fun _ => True)
      (runStepCompensation config inst step) := by
  refine yields_lift_bind fun state _ => ?_
  refine Program.Safe.bind (Program.Yields.mono (yields_runAttempt step.timeoutSeconds
    fun _ _ => Program.yields_of_forall (fun _ _ => trivial) _)
    (fun _ allowed => asks_of_attempts allowed.1) fun _ holds => holds) ?_
  rintro (success | failure) _ _ <;> trivial

private theorem yields_compensateSteps (steps : List WorkflowStep) :
    Program.Yields (fun op => asks op = true) (fun _ => True)
      (compensateSteps config inst steps) := by
  induction steps with
  | nil => trivial
  | cons step rest ih =>
    refine Program.Safe.bind (Program.Safe.settle (yields_runStepCompensation step)) ?_
    rintro (failure | _) _ _
    · dsimp only
      split <;> trivial
    · exact ih

private theorem aside_compensateSteps {steps : List WorkflowStep}
    {result : Except Exn (Option String)}
    (evaluated : Program.evaluate (surroundings.answer guard) (compensateSteps config inst steps)
      state = (result, final)) : Aside (surroundings.site state) (surroundings.site final) := by
  have kept (current : Site) (op : Op) (response : op.Result) (later : Site)
      (aside : Aside (surroundings.site state) current) (isAsked : asks op = true)
      (answered : wired setting guard current op response later) :
      Aside (surroundings.site state) later :=
    aside.trans (aside_of_asks isAsked answered)
  exact (yields_compensateSteps steps).preserves kept (steps_site evaluated) (.refl _)

/-- Events that raise an escalation or move the instance. -/
private def parkEvent : Payload → Prop
  | .escalationRaised _ => True
  | .instanceStatusChanged .. => True
  | _ => False

/-- What an escalation does: it appends events of these kinds. -/
private structure Parked (site next : Site) : Prop where
  outside : next.outside = site.outside
  log : ∃ batch, next.journal.log = site.journal.log ++ batch ∧
    ∀ event ∈ batch, parkEvent event.payload

private theorem parked_append {drafts : List Event}
    (quiet : next.outside = site.outside ∧ next.journal.log = site.journal.log)
    (all : ∀ draft ∈ drafts, parkEvent draft.payload) :
    Program.Safe (wired setting guard) (fun _ _ => True) (fun _ later => Parked site later)
      (fun _ _ => True) (append setting.definition inst drafts) next := by
  unfold append
  split
  · exact ⟨quiet.1, [], by rw [quiet.2, List.append_nil],
      List.forall_mem_nil _⟩
  · refine ⟨trivial, ?_⟩
    rintro (failure | ⟨last, events⟩) later ⟨answered, outside⟩
    · trivial
    · rcases answered with ⟨_, failed, _⟩ | ⟨committed, _⟩
      · cases failed
      · obtain ⟨_, _, _, _, _, journal⟩ := commit_eq_ok committed
        change Program.Safe _ _ _ _ (lift (foldOnto setting.definition inst events)) later
        cases foldOnto setting.definition inst events with
        | error failure => trivial
        | ok folded =>
          refine ⟨outside.trans quiet.1, resequence inst.version drafts, ?_,
            forall_mem_resequence all⟩
          rw [journal, quiet.2]

private theorem parked_escalate {stepId reason recommendation parkReason : String}
    (evaluated : Program.evaluate (surroundings.answer guard)
      (escalate setting.definition inst stepId reason recommendation parkReason) state =
        (.ok report, final)) : Parked (surroundings.site state) (surroundings.site final) := by
  have drafting {payload : Payload} {current : Site}
      (quiet : current.outside = (surroundings.site state).outside ∧
        current.journal.log = (surroundings.site state).journal.log) :
      Program.Safe (wired setting guard) (fun _ _ => True)
        (fun event later => DraftsOf inst [payload] [event] ∧
          later.outside = (surroundings.site state).outside ∧
            later.journal.log = (surroundings.site state).journal.log)
        (fun _ _ => True) (draftEvent inst payload) current := by
    have kept (current : Site) (op : Op)
        (quiet : current.outside = (surroundings.site state).outside ∧
          current.journal.log = (surroundings.site state).journal.log) (drafts : op.drafts) :
        True ∧ ∀ response later, wired setting guard current op response later →
          later.outside = (surroundings.site state).outside ∧
            later.journal.log = (surroundings.site state).journal.log := by
      refine ⟨trivial, fun response later answered => ?_⟩
      cases op with
      | newId | now =>
        obtain ⟨⟨_, journal⟩, outside⟩ := answered
        exact ⟨outside.trans quiet.1, by rw [journal]; exact quiet.2⟩
      | _ => exact drafts.elim
    exact (yields_draftEvent inst payload).safe kept (fun _ _ _ => trivial) quiet
  have safe : Program.Safe (wired setting guard) (fun _ _ => True)
      (fun _ later => Parked (surroundings.site state) later) (fun _ _ => True)
      (escalate setting.definition inst stepId reason recommendation parkReason)
      (surroundings.site state) := by
    have issued : Program.Safe (wired setting guard) (fun _ _ => True)
        (fun _ later => later.outside = (surroundings.site state).outside ∧
          later.journal.log = (surroundings.site state).journal.log)
        (fun _ _ => True) Code.newId (surroundings.site state) := by
      refine ⟨trivial, ?_⟩
      rintro escalationId current ⟨⟨_, journal⟩, outside⟩
      exact ⟨outside, by rw [journal]⟩
    refine Program.Safe.bind issued ?_
    intro escalationId current quiet
    refine Program.Safe.bind (drafting quiet) ?_
    rintro raised current ⟨drafted, quiet⟩
    refine Program.Safe.bind (drafting quiet) ?_
    rintro parked current ⟨more, quiet⟩
    have all : ∀ draft ∈ [raised] ++ [parked], parkEvent draft.payload := by
      refine (drafted.append more).forall_mem ?_
      rintro payload (_ | ⟨_, _ | ⟨_, ⟨⟩⟩⟩) <;> trivial
    exact Program.Safe.bind (parked_append quiet all) fun _ _ parked => parked
  exact safe.steps (steps_site evaluated)

/-! ### Undoing the effects -/

private theorem evaluate_compensateInstance (instanceId tenantId : String)
    (state : surroundings.State) :
    Program.evaluate surroundings.guard (guard.compensateInstance instanceId tenantId) state =
      Program.evaluate surroundings.guard (guard.undo instanceId tenantId
          ((surroundings.site state).outside.listed instanceId tenantId .executed).reverse)
        (surroundings.guard state (.listForInstance instanceId tenantId .executed)).2 := by
  have listed := (surroundings.guard_ok state (.listForInstance instanceId tenantId .executed)).1.1
  rw [← listed]
  rfl

/-- The guard's part in a rollback, as its worker sees it. -/
private theorem evaluate_undoSideEffects (isWired : config.hasSideEffects = true)
    (evaluated : Program.evaluate surroundings.guard
      (guard.undo inst.instanceId inst.tenantId (rowsToUndo surroundings config inst state))
      (onceListed surroundings config inst state) = (ran, final)) :
    Program.evaluate (surroundings.answer guard) (undoSideEffects config inst) state =
      match ran with
      | .ok outcomes => (.ok (.ok (outcomes.map Outcome.report)), final)
      | .error failure =>
        if failure.exnClass = .compensation then (.ok (.error failure.message), final)
        else (.error failure, final) := by
  unfold rowsToUndo onceListed at evaluated
  rw [if_pos isWired, if_pos isWired, ← evaluate_compensateInstance] at evaluated
  have called : Program.evaluate (surroundings.answer guard)
      (Code.compensateInstance inst.instanceId inst.tenantId) state =
        (.ok (ran.map (List.map Outcome.report)), final) :=
    congrArg (fun ran : Except Exn (List Outcome) × surroundings.State =>
      (Except.ok (ran.1.map (List.map Outcome.report)), ran.2)) evaluated
  unfold undoSideEffects
  rw [if_pos isWired, Program.evaluate_bind, called]
  cases ran with
  | ok outcomes => rfl
  | error failure =>
    change Program.evaluate _ (ite _ _ _) _ = _
    by_cases isCompensation : failure.exnClass = .compensation
    · rw [if_pos isCompensation]
      exact (if_pos isCompensation).symm
    · rw [if_neg isCompensation]
      exact (if_neg isCompensation).symm

/-- Without any rows there is nothing to undo. -/
private theorem evaluate_undo_nil (none : rowsToUndo surroundings config inst state = []) :
    Program.evaluate (surroundings.answer guard) (undoSideEffects config inst) state =
      (.ok (.ok []), onceListed surroundings config inst state) := by
  cases isWired : config.hasSideEffects with
  | true =>
    have evaluated : Program.evaluate surroundings.guard
        (guard.undo inst.instanceId inst.tenantId (rowsToUndo surroundings config inst state))
        (onceListed surroundings config inst state) =
          (.ok [], onceListed surroundings config inst state) := by
      rw [none]
      rfl
    exact evaluate_undoSideEffects isWired evaluated
  | false =>
    unfold undoSideEffects onceListed
    rw [isWired]
    rfl

/-- Listing rows changes nothing. -/
private theorem site_onceListed :
    surroundings.site (onceListed surroundings config inst state) = surroundings.site state := by
  unfold onceListed
  split
  · obtain ⟨⟨_, outside⟩, journal⟩ := surroundings.guard_ok state
      (.listForInstance inst.instanceId inst.tenantId .executed)
    cases listed : surroundings.site (surroundings.guard state
      (.listForInstance inst.instanceId inst.tenantId .executed)).2
    rw [listed] at outside journal
    cases outside
    cases journal
    rfl
  · rfl

/-- A row to undo is stored as executed. -/
private theorem stored_of_mem_rowsToUndo (keyed : Keyed (surroundings.site state).outside)
    (member : row ∈ rowsToUndo surroundings config inst state) :
    (surroundings.site state).outside.rows.get? row.idempotencyKey = some row ∧
      row.status = .executed := by
  unfold rowsToUndo at member
  split at member
  · have listed := List.mem_reverse.mp member
    unfold Outside.listed at listed
    obtain ⟨isValue, matching⟩ := List.mem_filter.mp listed
    obtain ⟨key, stored⟩ := Dict.mem_values_iff.mp isValue
    have same := keyed key row stored
    simp only [Bool.and_eq_true, decide_eq_true_eq] at matching
    exact ⟨same ▸ stored, matching.2⟩
  · cases member

private theorem not_compensation_of_not_isException {failure : Exn}
    (notException : failure.isException = false) : failure.exnClass ≠ .compensation := by
  intro isCompensation
  unfold Exn.isException at notException
  rw [isCompensation] at notException
  cases notException

/-- Nothing but the outbox has changed, and it is compensated as before. -/
private theorem aside_of_guard {op : GuardOp}
    (keeps : KeepsRecord (surroundings.site state).outside op) :
    Aside (surroundings.site state) (surroundings.site (surroundings.guard state op).2) := by
  obtain ⟨answered, journal⟩ := surroundings.guard_ok state op
  exact ⟨by rw [journal], fun key => compensated_of_keepsRecord keeps answered⟩

/-- How the guard undoes the first of several rows, unless it raises something
that is no failed compensation. -/
private theorem evaluate_undo_row {instanceId tenantId : String}
    (stored : (surroundings.site state).outside.rows.get? row.idempotencyKey = some row)
    (evaluated : Program.evaluate surroundings.guard
      (guard.undo instanceId tenantId (row :: rest)) state = (ran, final)) :
    (∃ failure, ran = .error failure ∧ failure.exnClass ≠ .compensation) ∨
    (surroundings.guard state (.compensate row.provider
        (SideEffectGuard.undoRequest instanceId tenantId row) row.recorded)).1.isOk = false ∧
      (∃ failure, ran = .error failure) ∧
      Aside (surroundings.site state) (surroundings.site final) ∨
    (surroundings.guard state (.compensate row.provider
        (SideEffectGuard.undoRequest instanceId tenantId row) row.recorded)).1.isOk = true ∧
      Compensated (surroundings.site final).outside row.idempotencyKey := by
  unfold SideEffectGuard.undo SideEffectGuard.provider at evaluated
  cases registered : guard.providers row.provider with
  | none =>
    rw [registered] at evaluated
    cases evaluated
    exact .inl ⟨_, rfl, by simp [Exn.configurationError]⟩
  | some provider =>
    rw [registered] at evaluated
    simp only [raiseError, GuardCode.compensate, Program.call, bind, Program.bind,
      Program.evaluate] at evaluated
    have asked : Aside (surroundings.site state) (surroundings.site (surroundings.guard state
        (.compensate row.provider (SideEffectGuard.undoRequest instanceId tenantId row)
          row.recorded)).2) := aside_of_guard trivial
    have rows : (surroundings.site (surroundings.guard state
        (.compensate row.provider (SideEffectGuard.undoRequest instanceId tenantId row)
          row.recorded)).2).outside.rows = (surroundings.site state).outside.rows := by
      rw [(surroundings.guard_ok state (.compensate row.provider
        (SideEffectGuard.undoRequest instanceId tenantId row) row.recorded)).1]
    generalize surroundings.guard state (.compensate row.provider
      (SideEffectGuard.undoRequest instanceId tenantId row) row.recorded) = answered at *
    obtain ⟨response, after⟩ := answered
    cases response with
    | error failure =>
      dsimp only at evaluated
      by_cases isException : failure.isException = true
      · rw [if_pos isException] at evaluated
        cases evaluated
        exact .inr (.inl ⟨rfl, ⟨_, rfl⟩, asked.trans (aside_of_guard trivial)⟩)
      · rw [if_neg isException] at evaluated
        cases evaluated
        exact .inl ⟨failure, rfl,
          not_compensation_of_not_isException (Bool.not_eq_true _ ▸ isException)⟩
    | ok compensation =>
      refine .inr (.inr ⟨rfl, ?_⟩)
      have marked : Compensated (surroundings.site (surroundings.guard after
          (.mark row.idempotencyKey .compensated)).2).outside row.idempotencyKey := by
        have changed : (surroundings.site (surroundings.guard after
          (.mark row.idempotencyKey .compensated)).2).outside = _ :=
            (surroundings.guard_ok after (.mark row.idempotencyKey .compensated)).1
        rw [changed, compensated_mark, if_pos rfl]
        exact ⟨row, rows ▸ stored, rfl⟩
      change Program.evaluate surroundings.guard
        (guard.undo instanceId tenantId rest >>= _) (surroundings.guard after
          (.mark row.idempotencyKey .compensated)).2 = (ran, final) at evaluated
      have undone := surroundings.steps_guard (guard.undo instanceId tenantId rest)
        (surroundings.guard after (.mark row.idempotencyKey .compensated)).2
      rw [Program.evaluate_bind] at evaluated
      have later := compensated_undo undone marked
      generalize Program.evaluate surroundings.guard (guard.undo instanceId tenantId rest)
        (surroundings.guard after (.mark row.idempotencyKey .compensated)).2 = outcome at *
      obtain ⟨result, last⟩ := outcome
      cases result with
      | ok others =>
        cases evaluated
        exact later
      | error failure =>
        cases evaluated
        exact later

/-- Undoing the first row: if the provider fails, nothing has changed in the end;
otherwise the row is compensated from then on. -/
private theorem evaluate_undo_cons {result : Except String (List EffectOutcome)}
    (keyed : Keyed (surroundings.site state).outside)
    (rows : rowsToUndo surroundings config inst state = row :: rest)
    (evaluated : Program.evaluate (surroundings.answer guard) (undoSideEffects config inst) state =
      (.ok result, final)) : ((surroundings.guard (onceListed surroundings config inst state)
        (.compensate row.provider
          (SideEffectGuard.undoRequest inst.instanceId inst.tenantId row) row.recorded)).1.isOk =
        false ∧ (∃ detail, result = .error detail) ∧
      Aside (surroundings.site state) (surroundings.site final)) ∨
    ((surroundings.guard (onceListed surroundings config inst state) (.compensate row.provider
          (SideEffectGuard.undoRequest inst.instanceId inst.tenantId row) row.recorded)).1.isOk =
        true ∧ Compensated (surroundings.site final).outside row.idempotencyKey) := by
  have isWired : config.hasSideEffects = true := by
    by_contra unwired
    unfold rowsToUndo at rows
    rw [if_neg unwired] at rows
    cases rows
  obtain ⟨stored, executed⟩ := stored_of_mem_rowsToUndo keyed (rows ▸ List.mem_cons_self)
  have site : surroundings.site (onceListed surroundings config inst state) =
      surroundings.site state := site_onceListed
  generalize evaluatedGuard : Program.evaluate surroundings.guard
    (guard.undo inst.instanceId inst.tenantId (rowsToUndo surroundings config inst state))
    (onceListed surroundings config inst state) = outcome
  obtain ⟨ran, last⟩ := outcome
  have seen := evaluate_undoSideEffects isWired evaluatedGuard
  rw [evaluated] at seen
  rw [rows] at evaluatedGuard
  rcases evaluate_undo_row (site ▸ stored) evaluatedGuard with
    ⟨failure, rfl, other⟩ | ⟨fails, ⟨failure, rfl⟩, aside⟩ | ⟨succeeds, compensated⟩
  · dsimp only at seen
    rw [if_neg other] at seen
    cases seen
  · dsimp only at seen
    split at seen
    · cases seen
      exact .inl ⟨fails, ⟨_, rfl⟩, site ▸ aside⟩
    · cases seen
  · refine .inr ⟨succeeds, ?_⟩
    cases ran with
    | ok outcomes =>
      cases seen
      exact compensated
    | error failure =>
      dsimp only at seen
      split at seen
      · cases seen
        exact compensated
      · cases seen

/-! ### The two ways into the escalation -/

/-- How a rollback comes to the escalation: undoing the effects fails, or one of
the handlers does. -/
private theorem evaluate_rollback {reason : String}
    (evaluated : Program.evaluate (surroundings.answer guard)
      (rollback config setting.definition inst reason) state = (.ok report, final))
    (escalated : report.result = .waitingApproval) : (∃ detail middle,
      Program.evaluate (surroundings.answer guard) (undoSideEffects config inst) state =
          (.ok (.error detail), middle) ∧
        Parked (surroundings.site middle) (surroundings.site final)) ∨
    ∃ undone middle steps detail last,
      Program.evaluate (surroundings.answer guard) (undoSideEffects config inst) state =
          (.ok (.ok undone), middle) ∧
        stepsToCompensate inst setting.definition.steps.reverse = .ok steps ∧
        Program.evaluate (surroundings.answer guard) (compensateSteps config inst steps) middle =
          (.ok (some detail), last) ∧ Parked (surroundings.site last)
            (surroundings.site final) := by
  obtain ⟨result, middle, undo, later⟩ := Program.evaluate_bind_eq_ok evaluated
  cases result with
  | error detail => exact .inl ⟨detail, middle, undo, parked_escalate later⟩
  | ok undone =>
    obtain ⟨steps, same, found, later⟩ := Program.evaluate_bind_eq_ok later
    cases chosen : stepsToCompensate inst setting.definition.steps.reverse with
    | error failure =>
      rw [chosen] at found
      cases found
    | ok steps =>
      rw [chosen] at found
      cases found
      obtain ⟨failure, last, handled, later⟩ := Program.evaluate_bind_eq_ok later
      cases failure with
      | some detail =>
        exact .inr ⟨undone, _, _, detail, last, undo, rfl, handled, parked_escalate later⟩
      | none =>
        obtain ⟨drafts, drafted, _, later⟩ := Program.evaluate_bind_eq_ok later
        obtain ⟨next, appended, _, later⟩ := Program.evaluate_bind_eq_ok later
        cases later
        cases escalated

private theorem log_undoSideEffects {result : Except Exn (Except String (List EffectOutcome))}
    (evaluated : Program.evaluate (surroundings.answer guard) (undoSideEffects config inst) state =
      (result, final)) :
    (surroundings.site final).journal.log = (surroundings.site state).journal.log := by
  have yields : Program.Yields (fun op => ∃ instanceId tenantId,
      op = .compensateInstance instanceId tenantId) (fun _ => True)
      (undoSideEffects config inst) := by
    unfold undoSideEffects
    split
    · refine ⟨⟨_, _, rfl⟩, ?_⟩
      rintro (failure | undone) _ _
      · change Program.Yields _ _ (ite _ _ _)
        split <;> trivial
      · trivial
    · trivial
  have kept (current : Site) (op : Op) (response : op.Result) (later : Site)
      (same : current.journal.log = (surroundings.site state).journal.log)
      (allowed : ∃ instanceId tenantId, op = .compensateInstance instanceId tenantId)
      (answered : wired setting guard current op response later) :
      later.journal.log = (surroundings.site state).journal.log := by
    obtain ⟨instanceId, tenantId, rfl⟩ := allowed
    rw [answered.1]
    exact same
  exact yields.preserves kept (steps_site evaluated) rfl

/-- Moves and escalations do not touch what the log knows of effects. -/
private theorem sideEffects_of_parkEvent {definition : Option WorkflowDefinition}
    {base later : WorkflowInstance} (all : ∀ event ∈ batch, parkEvent event.payload)
    (folded : fold batch definition (some base) = .ok later) :
    later.sideEffects = base.sideEffects := by
  refine fixed_of_fold_base WorkflowInstance.sideEffects (fun _ _ _ => rfl) ?_ folded
  intro event member current next handled
  rw [(fields_of_handle handled).2]
  have isParking := all event member
  cases payload : event.payload <;> rw [payload] at isParking
  case instanceStatusChanged | escalationRaised => rfl
  all_goals exact isParking.elim

/-- Nothing undone, nothing to record. -/
private theorem recorded_of_aside
    (aside : Aside (surroundings.site state) (surroundings.site middle))
    (parked : Parked (surroundings.site middle) (surroundings.site final))
    (folded : fold (surroundings.site state).journal.log (some setting.definition) = .ok inst)
    (unhandled : handledSteps surroundings guard config inst state = []) :
    Recorded surroundings guard config inst state final := by
  have compensated (key : String) : Compensated (surroundings.site final).outside key ↔
      Compensated (surroundings.site state).outside key := by
    rw [parked.outside]
    exact aside.compensated key
  constructor
  case effects =>
    intro key before after
    exact absurd ((compensated key).mp after) before
  case steps =>
    rw [unhandled]
    exact List.forall_mem_nil _
  case agrees =>
    intro agrees later laterOk ref member
    obtain ⟨batch, grown, all⟩ := parked.log
    rw [grown, aside.log] at laterOk
    have same := sideEffects_of_parkEvent all ((fold_append folded).mp laterOk)
    rw [compensated]
    exact agrees inst folded ref (same ▸ member)
  case notAgain =>
    rw [unhandled]
    exact List.forall_mem_nil _

/-- A failed rollback records nothing. -/
private theorem not_recordsUndo_of_parked
    (unrecorded : ∀ event ∈ (surroundings.site state).journal.log, ¬ recordsUndo event.payload)
    (log : (surroundings.site middle).journal.log = (surroundings.site state).journal.log)
    (parked : Parked (surroundings.site middle) (surroundings.site final)) :
    ∀ event ∈ (surroundings.site final).journal.log, ¬ recordsUndo event.payload := by
  obtain ⟨batch, grown, all⟩ := parked.log
  intro event member
  rw [grown, log] at member
  rcases List.mem_append.mp member with old | new
  · exact unrecorded event old
  · have isParking := all event new
    intro records
    cases payload : event.payload <;> rw [payload] at isParking records <;>
      first | exact isParking.elim | exact records.elim

end Runs

/-- A rollback that ends in the escalation of a failed compensation leaves a
complete record of what it has undone exactly if the first compensation that it
attempts fails. -/
theorem failed_rollback_recorded_iff (setting : Setting) (surroundings : Surroundings setting)
    (guard : SideEffectGuard) (config : Config) (inst : WorkflowInstance) (reason : String)
    (state final : surroundings.State) (report : DriveReport)
    (reachable : Reachable setting anywhere (surroundings.site state).journal)
    (keyed : Keyed (surroundings.site state).outside)
    (folded : fold (surroundings.site state).journal.log (some setting.definition) = .ok inst)
    (running : inst.status = .running)
    (evaluated : Program.evaluate (surroundings.answer guard)
      (rollback config setting.definition inst reason) state = (.ok report, final))
    (escalated : report.result = .waitingApproval) :
    Recorded surroundings guard config inst state final ↔
      FirstFails surroundings guard config inst state := by
  have unrecorded := not_recordsUndo_of_running reachable folded running
  -- An effect or a step that was undone would have to be on record.
  have unrecordedEffect {key : String} {middle : surroundings.State}
      (log : (surroundings.site middle).journal.log = (surroundings.site state).journal.log)
      (parked : Parked (surroundings.site middle) (surroundings.site final))
      (before : ¬ Compensated (surroundings.site state).outside key)
      (after : Compensated (surroundings.site middle).outside key) :
      ¬ Recorded surroundings guard config inst state final := by
    intro recorded
    obtain ⟨event, member, stepId, result, isRecord⟩ :=
      recorded.effects key before (parked.outside ▸ after)
    refine not_recordsUndo_of_parked unrecorded log parked event member ?_
    rw [isRecord]
    trivial
  cases rows : rowsToUndo surroundings config inst state with
  | cons row rest =>
      obtain ⟨stored, executed⟩ := stored_of_mem_rowsToUndo keyed (rows ▸ List.mem_cons_self)
      have before : ¬ Compensated (surroundings.site state).outside row.idempotencyKey := by
        rintro ⟨other, isOther, compensated⟩
        cases stored.symm.trans isOther
        cases executed.symm.trans compensated
      unfold FirstFails
      rw [rows]
      dsimp only
      rcases evaluate_rollback evaluated escalated with
        ⟨detail, middle, undo, parked⟩ | ⟨undone, middle, steps, detail, last, undo, _, ran, parked⟩
      · rcases evaluate_undo_cons keyed rows undo with ⟨fails, _, aside⟩ | ⟨succeeds, after⟩
        · refine iff_of_true (recorded_of_aside aside parked folded ?_) fails
          unfold handledSteps
          rw [undo]
        · refine iff_of_false (unrecordedEffect (log_undoSideEffects undo) parked before after) ?_
          rw [succeeds]
          decide
      · rcases evaluate_undo_cons keyed rows undo with ⟨_, ⟨_, ⟨⟩⟩, _⟩ | ⟨succeeds, after⟩
        have aside := aside_compensateSteps ran
        refine iff_of_false (unrecordedEffect (aside.log.trans (log_undoSideEffects undo)) parked
          before ((aside.compensated _).mpr after)) ?_
        rw [succeeds]
        decide
  | nil =>
      have nothing : Program.evaluate (surroundings.answer guard) (undoSideEffects config inst)
          state = (.ok (.ok []), onceListed surroundings config inst state) :=
        evaluate_undo_nil rows
      unfold FirstFails
      rw [rows]
      rcases evaluate_rollback evaluated escalated with
        ⟨detail, middle, undo, _⟩ | ⟨undone, middle, steps, detail, last, undo, chosen, ran, parked⟩
      · cases nothing.symm.trans undo
      · cases nothing.symm.trans undo
        have aside := aside_compensateSteps ran
        rw [site_onceListed] at aside
        cases steps with
        | nil => cases ran
        | cons step rest =>
            have handled : handledSteps surroundings guard config inst state =
                handledFrom surroundings guard config inst (step :: rest)
                  (onceListed surroundings config inst state) := by
              unfold handledSteps
              rw [nothing, chosen]
            have first : (∀ other later, (.ok (step :: rest) : Except Exn (List WorkflowStep)) =
                .ok (other :: later) →
                (Program.evaluate (surroundings.answer guard)
                  (runStepCompensation config inst other)
                  (onceListed surroundings config inst state)).1.isOk = false) ↔
                (Program.evaluate (surroundings.answer guard) (runStepCompensation config inst step)
                  (onceListed surroundings config inst state)).1.isOk = false :=
              ⟨fun all => all step rest rfl, by rintro fails _ _ ⟨⟩; exact fails⟩
            rw [chosen, first]
            unfold handledFrom at handled
            cases evaluation : Program.evaluate (surroundings.answer guard)
              (runStepCompensation config inst step)
              (onceListed surroundings config inst state) with
            | mk result later =>
                rw [evaluation] at handled
                cases result with
                | error failure =>
                    exact iff_of_true (recorded_of_aside aside parked folded handled) rfl
                | ok done =>
                    refine iff_of_false ?_ (by rintro ⟨⟩)
                    intro recorded
                    obtain ⟨event, member, action, isRecord⟩ :=
                      recorded.steps step (handled ▸ List.mem_cons_self)
                    refine not_recordsUndo_of_parked unrecorded aside.log parked event member ?_
                    rw [isRecord]
                    trivial

/-! ## A parcel that is called back -/

/-- The rollback of a worker that has read the instance. -/
def rollbackFrom {setting : Setting} (surroundings : Surroundings setting)
    (guard : SideEffectGuard) (config : Config) (reason : String) (state : surroundings.State) :
    Except Exn DriveReport × surroundings.State :=
  match fold (surroundings.site state).journal.log (some setting.definition) with
  | .ok inst =>
      Program.evaluate (surroundings.answer guard) (rollback config setting.definition inst reason)
        state
  | .error _ => (.error (.runtimeError "no instance"), state)

private theorem exists_of_rollbackFrom {surroundings : Surroundings setting}
    {guard : SideEffectGuard} {config : Config} {reason : String} {state : surroundings.State}
    (status : (surroundings.site state).journal.status setting = some .running)
    (escalated : (rollbackFrom surroundings guard config reason state).1.toOption.map
      DriveReport.result = some .waitingApproval) : ∃ inst report,
      fold (surroundings.site state).journal.log (some setting.definition) = .ok inst ∧
      inst.status = .running ∧
      Program.evaluate (surroundings.answer guard) (rollback config setting.definition inst reason)
        state = (.ok report, (rollbackFrom surroundings guard config reason state).2) ∧
      report.result = .waitingApproval := by
  obtain ⟨inst, folded, running⟩ := exists_fold_of_status status
  unfold rollbackFrom at escalated ⊢
  rw [folded] at escalated ⊢
  dsimp only at escalated ⊢
  cases evaluation : Program.evaluate (surroundings.answer guard)
    (rollback config setting.definition inst reason) state with
  | mk result final =>
    rw [evaluation] at escalated
    cases result with
    | error failure => cases escalated
    | ok report => exact ⟨inst, report, rfl, running, evaluation, Option.some.inj escalated⟩

/-- Ship a parcel and bill it. -/
def parcelWorkflow : WorkflowDefinition where
  workflowId := "parcel"
  version := "1.0.0"
  steps :=
    [{ stepId := "ship", agentType := "shipper", sideEffects := ["parcel"],
       compensationAction := some "courier" },
     { stepId := "bill", agentType := "biller", dependencies := ["ship"] }]
  onFailure := .rollback
  valid := rfl

/-- Only the shipper succeeds. -/
def parcelConfig : Config where
  registry := fun agentType => some fun _ =>
    if agentType = "shipper" then
      .perform (.executeEffect "parcel" Dict.empty "post") fun _ => .done { output := Dict.empty }
    else
      .raise { exnClass := .exception, typeName := "ValueError", message := "refused" }
  digestMessages := fun _ _ => ""

def parcelLease : Lease where
  instanceId := "instance"
  tenantId := "tenant"
  workflowId := "parcel"
  workflowVersion := "1.0.0"
  workerId := "worker"

def parcelSetting : Setting :=
  .simple parcelWorkflow (· = .drive parcelConfig parcelLease)

/-- The post takes the parcel. -/
def parcelOracle : Oracle where
  executeEffect := fun stepId effectName params _ =>
    .ok
      { idempotencyKey := "key", effectName := effectName, stepId := stepId, params := params,
        result := Dict.empty, deduplicated := false, guarantee := .atLeastOnceDedup }

/-- The bill has been refused, and the rollback is about to begin. -/
@[irreducible]
def parcelWorld : World :=
  executeAll parcelSetting parcelOracle [(36, .drive parcelConfig parcelLease)]
    (.opened parcelSetting none)

def parcelSite : Site where
  journal := parcelWorld
  outside :=
    { rows := Dict.ofList [("key",
        { idempotencyKey := "key", instanceId := "instance", tenantId := "tenant",
          stepId := "ship", effectName := "parcel", provider := "post", params := Dict.empty,
          status := .executed })] }

/-- The rollback, with providers of a fixed behaviour. -/
def parcelRollback (behaviour : Outside.Behaviour) : Except Exn DriveReport × Site :=
  rollbackFrom (.simple parcelSetting {} behaviour) mailGuard parcelConfig "refused" parcelSite

theorem reachable_parcelWorld : Reachable parcelSetting anywhere parcelWorld := by
  unfold parcelWorld
  exact (reachable_opened parcelSetting anywhere none).executeAll ⟨rfl, trivial, trivial⟩

theorem keyed_parcelSite : Keyed parcelSite.outside := by
  intro key row stored
  have listed := (Dict.get?_ofList_eq_some_iff (by decide)).mp stored
  cases List.mem_singleton.mp listed
  rfl

theorem status_parcelWorld : parcelWorld.status parcelSetting = some .running := by
  decide +kernel

/-- The post does not answer: the rollback fails at once and has undone nothing. -/
theorem failed_rollback_recorded_parcel :
    ∃ inst final, Recorded (Surroundings.simple parcelSetting {}
      { undone := .error (.runtimeError "no answer") }) mailGuard parcelConfig inst parcelSite
      final := by
  let silent : Outside.Behaviour := { undone := .error (.runtimeError "no answer") }
  have escalated : (parcelRollback silent).1.toOption.map DriveReport.result =
      some .waitingApproval := by decide +kernel
  obtain ⟨inst, report, folded, running, evaluated, result⟩ :=
    exists_of_rollbackFrom status_parcelWorld escalated
  refine ⟨inst, _, (failed_rollback_recorded_iff parcelSetting
    (.simple parcelSetting {} silent) mailGuard parcelConfig inst "refused" parcelSite _ report
    reachable_parcelWorld keyed_parcelSite folded running evaluated result).mpr ?_⟩
  obtain ⟨read, readOk, owner⟩ := (consistent_of_reachable reachable_parcelWorld).folds
  cases readOk.symm.trans folded
  have isInstance : inst.instanceId = "instance" := congrArg Prod.fst owner
  have isTenant : inst.tenantId = "tenant" := congrArg Prod.snd owner
  unfold FirstFails rowsToUndo
  rw [isInstance, isTenant]
  rfl

/-- The post sends the parcel back and the courier fails: the outbox says that the
effect is compensated, the log does not. -/
theorem called_back_not_recorded :
    ∃ inst report final, Reachable parcelSetting anywhere parcelWorld ∧
      Keyed parcelSite.outside ∧
      fold parcelWorld.log (some parcelSetting.definition) = .ok inst ∧
      inst.status = .running ∧
      Program.evaluate ((Surroundings.simple parcelSetting {} {}).answer mailGuard)
        (rollback parcelConfig parcelSetting.definition inst "refused") parcelSite =
          (.ok report, final) ∧
      report.result = .waitingApproval ∧
      ¬ Recorded (Surroundings.simple parcelSetting {} {}) mailGuard parcelConfig inst parcelSite
        final := by
  have escalated : (parcelRollback {}).1.toOption.map DriveReport.result =
      some .waitingApproval := by decide +kernel
  obtain ⟨inst, report, folded, running, evaluated, result⟩ :=
    exists_of_rollbackFrom status_parcelWorld escalated
  refine ⟨inst, report, _, reachable_parcelWorld, keyed_parcelSite, folded, running, evaluated,
    result, fun recorded => ?_⟩
  have before : (parcelSite.outside.rows.get? "key").map OutboxEntry.status = some .executed := by
    decide +kernel
  have after : ((parcelRollback {}).2.outside.rows.get? "key").map OutboxEntry.status =
      some .compensated := by decide +kernel
  have unrecorded : "SideEffectCompensated" ∉ (parcelRollback {}).2.journal.eventTypes := by
    decide +kernel
  obtain ⟨event, member, stepId, outcome, payload⟩ := recorded.effects "key"
    (by
      rintro ⟨row, found, compensated⟩
      rw [show (Surroundings.simple parcelSetting {} {}).site parcelSite = parcelSite from rfl]
        at found
      rw [found] at before
      cases compensated.symm.trans (Option.some.inj before))
    (by
      obtain ⟨row, found, compensated⟩ := Option.map_eq_some_iff.mp after
      exact ⟨row, found, compensated⟩)
  refine unrecorded (List.mem_map.mpr ⟨event, member, ?_⟩)
  rw [payload]
  rfl

end AgentForge.Guarantees
