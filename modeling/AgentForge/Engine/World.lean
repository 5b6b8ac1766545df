import AgentForge.Engine.Operator

/-!
# Runs over one instance

The world that engine code runs in: the journal of one instance with the rows
kept beside it, the clock and the identifiers given out, and a history of what
leaves no trace in the journal.  Reading the instance folds the whole log; the
snapshots that the store adds are the subject of `Store.SnapshotReads`.

An actor performs its program for a while and then stops, at its end or where
its process dies; the next actor goes on from the world it has left behind.
-/

namespace AgentForge.Engine

open Domain Events Library Store

/-! ## Actors -/

/-- Whoever may touch an instance, with the arguments of the call. -/
inductive Actor
  | drive (config : Config) (lease : Lease)
  | pause (operator : String)
  | resume (operator : String)
  | abort (operator : String)
  | resolve (request : ResolveRequest)
  | expireDue (now : Time) (limit : Nat)
  | requeue (dlqId : Nat) (requeuedBy : String)

/-- An instance, its definition and the circumstances it runs in. -/
structure Setting where
  definition : WorkflowDefinition
  instanceId : String
  tenantId : String
  /-- The clock never goes back. -/
  monotoneClock : Prop
  /-- Who takes part. -/
  admits : Actor → Prop

/-- Dead letters are not requeued. -/
def Setting.NoRequeue (setting : Setting) : Prop :=
  ∀ dlqId requeuedBy, ¬ setting.admits (.requeue dlqId requeuedBy)

def Setting.owner (setting : Setting) : String × String :=
  (setting.instanceId, setting.tenantId)

/-- A call whose answer no drive report is made of. -/
def silent {α : Type} (code : Code α) : Code (Option DriveReport) := do
  let _ ← code
  pure none

/-- The program of an actor; drives also return a report. -/
def Actor.program (setting : Setting) : Actor → Code (Option DriveReport)
  | .drive config lease => do
      let report ← Engine.drive config lease
      pure (some report)
  | .pause operator => silent (Engine.pause setting.instanceId setting.tenantId operator)
  | .resume operator => silent (Engine.resume setting.instanceId setting.tenantId operator)
  | .abort operator => silent (Engine.abort setting.instanceId setting.tenantId operator)
  | .resolve request => silent (Engine.resolve request)
  | .expireDue now limit => silent (Engine.expireDue now limit)
  | .requeue dlqId requeuedBy => silent (Engine.requeue dlqId setting.tenantId requeuedBy)

/-! ## The world -/

/-- A finished attempt of a step. -/
structure AttemptRecord where
  stepId : String
  attempt : Nat
  outcome : StepOutcome

/-- A step the failure policy was applied to, and the log at that time. -/
structure PolicyRecord where
  stepId : String
  log : List Event

/-- An answered model call, and the length of the log at that time. -/
structure CallRecord where
  call : ModelCall
  position : Nat
  deriving DecidableEq

structure World where
  log : List Event
  escalations : Dict String EscalationRow := Dict.empty
  deadLetters : List DeadLetter := []
  clock : Time := 0
  /-- Identifiers given out so far. -/
  issued : List String := []
  attempts : List AttemptRecord := []
  policies : List PolicyRecord := []
  modelCalls : List CallRecord := []

namespace World

variable (setting : Setting) (world : World)

/-- `get_instance`, as the fold of the whole log. -/
def read (instanceId tenantId : String) (definition : Option WorkflowDefinition) :
    Except Exn (Option WorkflowInstance) :=
  if (instanceId, tenantId) = setting.owner then
    match fold world.log definition with
    | .ok inst => .ok (some inst)
    | .error failure => .error (.ofFold failure)
  else
    .ok none

/-- `append_new`, when nothing outside the journal prevents it: the world after
it, or what it raises. -/
def commit (instanceId tenantId : String) (drafts : List Event) (expectedVersion : Nat) :
    Except Exn World :=
  let events := resequence expectedVersion drafts
  if events.any fun event => event.owner ≠ (instanceId, tenantId) then
    .error (.eventStreamError "event instance_id/tenant_id mismatch")
  else if (instanceId, tenantId) ≠ setting.owner ∨ events = [] then
    .error (.eventStreamError s!"unknown instance {instanceId}")
  else if world.log.length ≠ expectedVersion then
    .error (.conflictError
      s!"instance {instanceId}: expected v{expectedVersion}, found v{world.log.length}")
  else
    match fold (world.log ++ events) with
    | .error failure => .error (.ofFold failure)
    | .ok _ =>
        .ok { world with
          log := world.log ++ events
          escalations := projectEscalations world.escalations events }

/-- Pending rows whose deadline has passed. -/
def dueRows (now : Time) : List EscalationRow :=
  world.escalations.values.filter fun row =>
    row.status = .pending && row.deadline.any fun deadline => deadline ≤ now

/-- Note a point of the code in the history. -/
def note : Mark → World
  | .attemptFinished stepId attempt outcome =>
      { world with attempts := world.attempts ++ [⟨stepId, attempt, outcome⟩] }
  | .policyApplied stepId =>
      { world with policies := world.policies ++ [⟨stepId, world.log⟩] }

end World

variable {world next : World} {setting : Setting}

/-- What a commit does. -/
theorem commit_eq_ok {instanceId tenantId : String} {drafts : List Event} {expectedVersion : Nat}
    (committed : world.commit setting instanceId tenantId drafts expectedVersion = .ok next) :
    (instanceId, tenantId) = setting.owner ∧ expectedVersion = world.log.length ∧
      (∀ event ∈ resequence expectedVersion drafts, event.owner = setting.owner) ∧
      resequence expectedVersion drafts ≠ [] ∧
      (∃ inst, fold (world.log ++ resequence expectedVersion drafts) = .ok inst) ∧
      next = { world with
        log := world.log ++ resequence expectedVersion drafts
        escalations :=
          projectEscalations world.escalations (resequence expectedVersion drafts) } := by
  unfold World.commit at committed
  generalize resequence expectedVersion drafts = events at committed ⊢
  by_cases foreign : (events.any fun event => event.owner ≠ (instanceId, tenantId)) = true
  · rw [if_pos foreign] at committed
    cases committed
  rw [if_neg foreign] at committed
  by_cases unknown : (instanceId, tenantId) ≠ setting.owner ∨ events = []
  · rw [if_pos unknown] at committed
    cases committed
  rw [if_neg unknown] at committed
  by_cases stale : world.log.length ≠ expectedVersion
  · rw [if_pos stale] at committed
    cases committed
  rw [if_neg stale] at committed
  rw [not_or, not_not] at unknown
  cases folded : fold (world.log ++ events) with
  | error failure =>
    rw [folded] at committed
    cases committed
  | ok inst =>
    rw [folded] at committed
    refine ⟨unknown.1, (not_not.mp stale).symm, ?_, unknown.2, ⟨inst, rfl⟩,
      (Except.ok.inj committed).symm⟩
    intro event member
    rw [← unknown.1]
    by_contra different
    exact foreign (List.any_eq_true.mpr ⟨event, member, decide_eq_true different⟩)

/-- The answers the world may give.  An append that is not committed may fail in
any way, as when the lease is lost; ledgers, side effects and whatever runners
talk to may answer anything. -/
def answers (setting : Setting) (world : World) : (op : Op) → op.Result → World → Prop
  | .now, time, next =>
      (setting.monotoneClock → world.clock ≤ time) ∧ next = { world with clock := time }
  | .newId, id, next =>
      id ∉ world.issued ∧ next = { world with issued := id :: world.issued }
  | .getDefinition _ _ _, definition, next =>
      (definition = none ∨ definition = some setting.definition) ∧ next = world
  | .getInstance instanceId tenantId definition, inst, next =>
      inst = world.read setting instanceId tenantId definition ∧ next = world
  | .appendNew instanceId tenantId drafts expectedVersion _ _, result, next =>
      (∃ failure, result = .error failure ∧ next = world) ∨
        world.commit setting instanceId tenantId drafts expectedVersion = .ok next ∧
          result = .ok (next.log.length, resequence expectedVersion drafts)
  | .completeLLM call _ _, completion, next =>
      match completion with
      | .ok _ =>
          next = { world with modelCalls := world.modelCalls ++ [⟨call, world.log.length⟩] }
      | .error _ => next = world
  -- The store refuses a row whose texts are too long for its columns.
  | .recordDeadLetter row, result, next =>
      (∃ failure, result = .error failure ∧ next = world) ∨
        result = .ok () ∧ next = { world with deadLetters := world.deadLetters ++ [row] }
  | .getDeadLetter dlqId, row, next => row = world.deadLetters[dlqId]? ∧ next = world
  | .resolveDeadLetter dlqId _, _, next =>
      next = { world with
        deadLetters := world.deadLetters.modify dlqId fun row => { row with resolved := true } }
  | .getEscalation escalationId, row, next =>
      row = world.escalations.get? escalationId ∧ next = world
  | .dueEscalations now limit, rows, next =>
      (∃ due : List EscalationRow, due.Perm (world.dueRows now) ∧
        due.Pairwise (fun first second =>
          ∀ earlier ∈ first.deadline, ∀ later ∈ second.deadline, earlier ≤ later) ∧
        rows = due.take limit) ∧ next = world
  | .mark mark, _, next => next = world.note mark
  | _, _, next => next = world

/-- What an operation does to the journal, the history and the dead letters, if
anything. -/
inductive Change (setting : Setting) (world : World) : Op → World → Prop
  | none {op : Op} {next : World} : next.log = world.log → next.attempts = world.attempts →
      next.policies = world.policies → next.modelCalls = world.modelCalls →
      next.deadLetters = world.deadLetters → (setting.monotoneClock → world.clock ≤ next.clock) →
      Change setting world op next
  | committed {instanceId tenantId : String} {drafts : List Event} {expectedVersion : Nat}
      {guarded : Bool} {nextWakeupAt : Option Time} {next : World} :
      world.commit setting instanceId tenantId drafts expectedVersion = .ok next →
      Change setting world
        (.appendNew instanceId tenantId drafts expectedVersion guarded nextWakeupAt) next
  | called {call : ModelCall} {request : LLMRequest} {budget : Option BudgetView} :
      Change setting world (.completeLLM call request budget)
        { world with modelCalls := world.modelCalls ++ [⟨call, world.log.length⟩] }
  | noted {mark : Mark} : Change setting world (.mark mark) (world.note mark)
  | recorded {row : DeadLetter} : Change setting world (.recordDeadLetter row)
      { world with deadLetters := world.deadLetters ++ [row] }
  | resolved {dlqId : Nat} {tenantId : String} :
      Change setting world (.resolveDeadLetter dlqId tenantId)
        { world with
          deadLetters := world.deadLetters.modify dlqId fun row => { row with resolved := true } }

theorem change_of_answers {op : Op} {response : op.Result}
    (answered : answers setting world op response next) : Change setting world op next := by
  have same {op : Op} : Change setting world op world :=
    .none rfl rfl rfl rfl rfl fun _ => le_rfl
  cases op with
  | now =>
    obtain ⟨later, rfl⟩ := answered
    exact .none rfl rfl rfl rfl rfl later
  | newId | getDefinition | getInstance | getDeadLetter | getEscalation | dueEscalations =>
    obtain ⟨_, rfl⟩ := answered
    exact .none rfl rfl rfl rfl rfl fun _ => le_rfl
  | appendNew =>
    rcases answered with ⟨_, _, rfl⟩ | ⟨committed, _⟩
    · exact same
    · exact .committed committed
  | recordDeadLetter =>
    rcases answered with ⟨_, _, rfl⟩ | ⟨_, rfl⟩
    · exact same
    · exact .recorded
  | resolveDeadLetter =>
    cases answered
    exact .resolved
  | completeLLM =>
    cases response with
    | ok completion =>
      cases answered
      exact .called
    | error failure =>
      cases answered
      exact same
  | mark =>
    cases answered
    exact .noted
  | _ =>
    cases answered
    exact .none rfl rfl rfl rfl rfl fun _ => le_rfl

/-- What an operation does to the journal. -/
inductive LogChange (setting : Setting) (world : World) : Op → World → Prop
  | same {op : Op} {next : World} : next.log = world.log → LogChange setting world op next
  | committed {instanceId tenantId : String} {drafts : List Event} {expectedVersion : Nat}
      {guarded : Bool} {nextWakeupAt : Option Time} {next : World} :
      world.commit setting instanceId tenantId drafts expectedVersion = .ok next →
      LogChange setting world
        (.appendNew instanceId tenantId drafts expectedVersion guarded nextWakeupAt) next

theorem logChange_of_answers {op : Op} {response : op.Result}
    (answered : answers setting world op response next) : LogChange setting world op next := by
  cases change_of_answers answered with
  | none sameLog => exact .same sameLog
  | committed committed => exact .committed committed
  | called | recorded | resolved => exact .same rfl
  | @noted mark => cases mark <;> exact .same rfl

/-- The log only grows. -/
theorem log_of_answers {op : Op} {response : op.Result}
    (answered : answers setting world op response next) :
    ∃ batch, next.log = world.log ++ batch := by
  cases logChange_of_answers answered with
  | same sameLog => exact ⟨[], by rw [sameLog, List.append_nil]⟩
  | committed committed =>
    obtain ⟨_, _, _, _, _, rfl⟩ := commit_eq_ok committed
    exact ⟨_, rfl⟩

theorem log_of_steps {α : Type} {program residual : Code α}
    (steps : Program.Steps (answers setting) world program next residual) :
    ∃ batch, next.log = world.log ++ batch := by
  induction steps with
  | refl => exact ⟨[], (List.append_nil _).symm⟩
  | step answered _ ih =>
    obtain ⟨first, grown⟩ := log_of_answers answered
    obtain ⟨second, grown'⟩ := ih
    exact ⟨first ++ second, by rw [grown', grown, List.append_assoc]⟩

/-! ## Reachable worlds -/

/-- A world in which the instance has just been created. -/
def World.Fresh (setting : Setting) (world : World) : Prop :=
  ∃ event clock issued, event.owner = setting.owner ∧ event.sequence = 1 ∧
    event.isGenesis = true ∧ world = { log := [event], clock := clock, issued := issued }

/-- Worlds that the actors of a setting lead to, one after the other.  Where an
actor may stop is up to `ends`: the world and what is left of its program. -/
inductive Reachable (setting : Setting) (ends : World → Code (Option DriveReport) → Prop) :
    World → Prop
  | fresh {world : World} : world.Fresh setting → Reachable setting ends world
  | act {world next : World} {residual : Code (Option DriveReport)} (actor : Actor) :
      Reachable setting ends world →
      setting.admits actor →
      Program.Steps (answers setting) world (actor.program setting) next residual →
      ends next residual →
      Reachable setting ends next

/-- An actor may stop anywhere: at its end, or where its process dies. -/
def anywhere : World → Code (Option DriveReport) → Prop :=
  fun _ _ => True

/-- The program has come to its end. -/
def Finished {α : Type} : Code α → Prop
  | .done _ => True
  | .raise _ => True
  | .perform _ _ => False

/-- A process that died, raised an error or lost its lease has not done all it
was about to do. -/
def Interrupted : Code (Option DriveReport) → Prop
  | .done (some report) => report.result = .leaseLost
  | .done none => False
  | .raise _ => True
  | .perform _ _ => True

instance : DecidablePred Interrupted
  | .done (some report) => inferInstanceAs (Decidable (report.result = .leaseLost))
  | .done none => inferInstanceAs (Decidable False)
  | .raise _ => inferInstanceAs (Decidable True)
  | .perform _ _ => inferInstanceAs (Decidable True)

instance {α : Type} : DecidablePred (@Finished α)
  | .done _ => inferInstanceAs (Decidable True)
  | .raise _ => inferInstanceAs (Decidable True)
  | .perform _ _ => inferInstanceAs (Decidable False)

end AgentForge.Engine
