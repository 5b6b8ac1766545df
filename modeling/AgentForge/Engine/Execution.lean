import AgentForge.Engine.World
import Mathlib.Data.List.MinMax
import Mathlib.Data.List.Sort

/-!
# Executable worlds

One admissible answer to every operation, so that programs of actors can be
executed: the clock advances by a fixed amount, identifiers are fresh, appends
are committed, and whatever lies outside the engine answers as an oracle says.
-/

namespace AgentForge.Engine

open Domain Events Library Store

theorem zero_tick_nonneg : (0 : Rat) ≤ 0 := Rat.le_refl

/-- The answers of whatever lies outside the engine. -/
structure Oracle where
  /-- Seconds between two looks at the clock. -/
  tick : Rat := 0
  tick_nonneg : 0 ≤ tick := by exact zero_tick_nonneg
  completeLLM : ModelCall → Except Exn LLMCompletion :=
    fun _ => .error (.configurationError "no model")
  executeEffect : String → String → JsonDict → String → Except Exn EffectOutcome :=
    fun _ _ _ _ => .error (.configurationError "no provider")
  external : Json → Except Exn Json := fun query => .ok query
  compensateInstance : Except Exn (List EffectOutcome) := .ok []

namespace World

/-- An identifier longer than all those given out. -/
def freshId (world : World) : String :=
  String.ofList (List.replicate ((world.issued.map String.length).foldr max 0 + 1) 'x')

theorem freshId_not_mem (world : World) : world.freshId ∉ world.issued := by
  intro member
  have bound : world.freshId.length ≤ (world.issued.map String.length).foldr max 0 :=
    List.le_max_of_le' 0 (List.mem_map_of_mem member) le_rfl
  rw [freshId, String.length_ofList, List.length_replicate] at bound
  omega

/-- The due rows, earliest deadline first. -/
def sortedDueRows (world : World) (now : Time) : List EscalationRow :=
  (world.dueRows now).insertionSort fun first second =>
    first.deadline.getD 0 ≤ second.deadline.getD 0

/-- Commit if possible. -/
def commitOr (setting : Setting) (world : World) (instanceId tenantId : String)
    (drafts : List Event) (expectedVersion : Nat) : Except Exn (Nat × List Event) × World :=
  match world.commit setting instanceId tenantId drafts expectedVersion with
  | .ok next => (.ok (next.log.length, resequence expectedVersion drafts), next)
  | .error failure => (.error failure, world)

/-- Note an answered model call. -/
def noteCall (world : World) (call : ModelCall) :
    Except Exn LLMCompletion → Except Exn LLMCompletion × World
  | .ok completion => (.ok completion,
      { world with modelCalls := world.modelCalls ++ [⟨call, world.log.length⟩] })
  | .error failure => (.error failure, world)

private theorem noteCall_admitted (setting : Setting) (world : World) (call : ModelCall)
    (request : LLMRequest) (budget : Option BudgetView) (completion : Except Exn LLMCompletion) :
    answers setting world (.completeLLM call request budget) (world.noteCall call completion).1
      (world.noteCall call completion).2 := by
  cases completion with
  | ok value => rfl
  | error failure => rfl

private theorem commitOr_admitted (setting : Setting) (world : World)
    (instanceId tenantId : String) (drafts : List Event) (expectedVersion : Nat) : (∃ failure,
      (world.commitOr setting instanceId tenantId drafts expectedVersion).1 = .error failure ∧
        (world.commitOr setting instanceId tenantId drafts expectedVersion).2 = world) ∨
      world.commit setting instanceId tenantId drafts expectedVersion =
          .ok (world.commitOr setting instanceId tenantId drafts expectedVersion).2 ∧
        (world.commitOr setting instanceId tenantId drafts expectedVersion).1 =
          .ok ((world.commitOr setting instanceId tenantId drafts expectedVersion).2.log.length,
            resequence expectedVersion drafts) := by
  unfold commitOr
  cases world.commit setting instanceId tenantId drafts expectedVersion with
  | ok next => exact .inr ⟨rfl, rfl⟩
  | error failure => exact .inl ⟨failure, rfl, rfl⟩

private theorem pairwise_sortedDueRows (world : World) (now : Time) :
    (world.sortedDueRows now).Pairwise fun first second =>
      ∀ earlier ∈ first.deadline, ∀ later ∈ second.deadline, earlier ≤ later := by
  have total : IsTrans EscalationRow fun first second =>
      first.deadline.getD 0 ≤ second.deadline.getD 0 := ⟨fun _ _ _ => le_trans⟩
  have sorted := List.pairwise_insertionSort
    (fun first second : EscalationRow => first.deadline.getD 0 ≤ second.deadline.getD 0)
    (world.dueRows now)
  refine sorted.imp ?_
  intro first second ordered earlier isEarlier later isLater
  rw [Option.mem_def] at isEarlier isLater
  rwa [isEarlier, isLater] at ordered

/-- One admissible answer to every operation. -/
def answer (setting : Setting) (oracle : Oracle) (world : World) :
    (op : Op) → op.Result × World
  | .now => (world.clock + oracle.tick, { world with clock := world.clock + oracle.tick })
  | .newId => (world.freshId, { world with issued := world.freshId :: world.issued })
  | .getDefinition _ _ _ => (some setting.definition, world)
  | .getInstance instanceId tenantId definition =>
      (world.read setting instanceId tenantId definition, world)
  | .appendNew instanceId tenantId drafts expectedVersion _ _ =>
      world.commitOr setting instanceId tenantId drafts expectedVersion
  | .spentToday _ _ => (0, world)
  | .recordSpend _ _ _ => ((), world)
  | .deadlinePassed _ => (false, world)
  | .completeLLM call _ _ => world.noteCall call (oracle.completeLLM call)
  | .executeEffect stepId effectName params provider =>
      (oracle.executeEffect stepId effectName params provider, world)
  | .external query => (oracle.external query, world)
  | .compensateInstance _ _ => (oracle.compensateInstance, world)
  | .recordDeadLetter row => (.ok (), { world with deadLetters := world.deadLetters ++ [row] })
  | .getDeadLetter dlqId => (world.deadLetters[dlqId]?, world)
  | .resolveDeadLetter dlqId _ =>
      ((), { world with
        deadLetters := world.deadLetters.modify dlqId fun row => { row with resolved := true } })
  | .getEscalation escalationId => (world.escalations.get? escalationId, world)
  | .dueEscalations now limit => ((world.sortedDueRows now).take limit, world)
  | .mark mark => ((), world.note mark)

theorem answers_answer (setting : Setting) (oracle : Oracle) (world : World) (op : Op) :
    answers setting world op (world.answer setting oracle op).1
      (world.answer setting oracle op).2 := by
  cases op with
  | now => exact ⟨fun _ => le_add_of_nonneg_right oracle.tick_nonneg, rfl⟩
  | newId => exact ⟨world.freshId_not_mem, rfl⟩
  | getDefinition => exact ⟨.inr rfl, rfl⟩
  | getInstance => exact ⟨rfl, rfl⟩
  | appendNew instanceId tenantId drafts expectedVersion guarded nextWakeupAt =>
    exact world.commitOr_admitted setting instanceId tenantId drafts expectedVersion
  | completeLLM call request budget =>
    exact world.noteCall_admitted setting call request budget (oracle.completeLLM call)
  | dueEscalations now limit =>
    exact ⟨⟨world.sortedDueRows now, List.perm_insertionSort _ _,
      world.pairwise_sortedDueRows now, rfl⟩, rfl⟩
  | recordDeadLetter => exact .inr ⟨rfl, rfl⟩
  | getDeadLetter => exact ⟨rfl, rfl⟩
  | getEscalation => exact ⟨rfl, rfl⟩
  | _ => rfl

end World

section Execute

variable (setting : Setting) (oracle : Oracle) {ends : World → Code (Option DriveReport) → Prop}

/-- Execute an actor for at most `count` operations: the world, and what is left
of the program. -/
def execute (count : Nat) (actor : Actor) (world : World) :
    World × Code (Option DriveReport) :=
  Program.runFor (fun world op => world.answer setting oracle op) count world
    (actor.program setting)

/-- Executing an actor leads from reachable worlds to reachable worlds. -/
theorem Reachable.execute {setting : Setting} {oracle : Oracle} {world : World}
    (reachable : Reachable setting ends world) {actor : Actor} (admitted : setting.admits actor)
    {count : Nat} (stops : ends (Engine.execute setting oracle count actor world).1
      (Engine.execute setting oracle count actor world).2) :
    Reachable setting ends (Engine.execute setting oracle count actor world).1 :=
  .act actor reachable admitted
    (Program.steps_runFor (World.answers_answer setting oracle) count world _) stops

/-- Execute actors one after the other, each for at most a number of
operations. -/
def executeAll (script : List (Nat × Actor)) (world : World) : World :=
  script.foldl (fun world entry => (execute setting oracle entry.1 entry.2 world).1) world

/-- Every actor of the script is admitted and may stop where it does. -/
def Performable (ends : World → Code (Option DriveReport) → Prop) :
    List (Nat × Actor) → World → Prop
  | [], _ => True
  | (count, actor) :: rest, world =>
      setting.admits actor ∧
        ends (execute setting oracle count actor world).1
          (execute setting oracle count actor world).2 ∧
        Performable ends rest (execute setting oracle count actor world).1

theorem Reachable.executeAll {setting : Setting} {oracle : Oracle} {script : List (Nat × Actor)}
    {world : World} (reachable : Reachable setting ends world)
    (performable : Performable setting oracle ends script world) :
    Reachable setting ends (Engine.executeAll setting oracle script world) := by
  induction script generalizing world with
  | nil => exact reachable
  | cons entry rest ih =>
    obtain ⟨admitted, stops, later⟩ := performable
    exact ih (reachable.execute admitted stops) later

/-- Execute code to its end. -/
def perform {α : Type} (code : Code α) (world : World) : Except Exn α × World :=
  Program.evaluate (fun world op => world.answer setting oracle op) code world

theorem steps_perform {α : Type} {setting : Setting} {oracle : Oracle}
    {sem : Semantics World Op Op.Result}
    (admitted : ∀ world op, sem world op (world.answer setting oracle op).1
      (world.answer setting oracle op).2) (code : Code α) (world : World) :
    Program.Steps sem world code (perform setting oracle code world).2
      (Program.ended (perform setting oracle code world).1) :=
  @Program.steps_evaluate _ _ _ _ _ sem _ _ id admitted code world

/-- A drive that has come to its end leads from reachable worlds to reachable
worlds. -/
theorem Reachable.drive {setting : Setting} {config : Config} {lease : Lease}
    {report : DriveReport} {world next : World} (reachable : Reachable setting anywhere world)
    (admitted : setting.admits (.drive config lease))
    (steps : Program.Steps (answers setting) world (Engine.drive config lease) next
      (.done report)) : Reachable setting anywhere next :=
  .act (.drive config lease) reachable admitted
    (Program.steps_map_done.mpr ⟨report, rfl, steps⟩) trivial

end Execute

/-! ## Simple circumstances -/

/-- An instance of a definition, with a clock that never goes back. -/
def Setting.simple (definition : WorkflowDefinition) (admits : Actor → Prop) : Setting where
  definition := definition
  instanceId := "instance"
  tenantId := "tenant"
  monotoneClock := True
  admits := admits

/-- The actor requeues a dead letter. -/
def Actor.isRequeue : Actor → Bool
  | .requeue _ _ => true
  | _ => false

/-- An instance whose dead letters are not requeued. -/
def Setting.withoutRequeue (definition : WorkflowDefinition) : Setting :=
  .simple definition fun actor => actor.isRequeue = false

theorem noRequeue_withoutRequeue (definition : WorkflowDefinition) :
    (Setting.withoutRequeue definition).NoRequeue := by
  intro dlqId requeuedBy admitted
  cases admitted

/-- The world in which the instance has just been created. -/
def World.opened (setting : Setting) (budgetLimitUsd : Option Rat) : World where
  log :=
    [{ eventId := "genesis", instanceId := setting.instanceId, tenantId := setting.tenantId,
       sequence := 1, occurredAt := 0,
       payload := .instanceCreated setting.definition.workflowId setting.definition.version
        Dict.empty budgetLimitUsd }]

theorem reachable_opened (setting : Setting) (ends : World → Code (Option DriveReport) → Prop)
    (budgetLimitUsd : Option Rat) : Reachable setting ends (World.opened setting budgetLimitUsd) :=
  .fresh ⟨_, 0, [], rfl, rfl, rfl, rfl⟩

/-- A drive by a worker that runs the same code for every step. -/
def driveWith (setting : Setting) (runner : RunnerCode) : Actor :=
  .drive
    { registry := fun _ => some fun _ => runner, digestMessages := fun _ _ => "" }
    { instanceId := setting.instanceId, tenantId := setting.tenantId,
      workflowId := setting.definition.workflowId,
      workflowVersion := setting.definition.version, workerId := "worker" }

/-- The identifiers of the escalations raised so far, in order. -/
def World.escalationIds (world : World) : List String :=
  world.escalations.keys

/-- The types of the logged events. -/
def World.eventTypes (world : World) : List String :=
  world.log.map fun event => event.payload.eventType

/-- The status of the instance, as a reader sees it. -/
def World.status (setting : Setting) (world : World) : Option WorkflowStatus :=
  match fold world.log (some setting.definition) with
  | .ok inst => some inst.status
  | .error _ => none

theorem exists_fold_of_status {setting : Setting} {world : World} {status : WorkflowStatus}
    (found : world.status setting = some status) :
    ∃ inst, fold world.log (some setting.definition) = .ok inst ∧ inst.status = status := by
  unfold World.status at found
  cases folded : fold world.log (some setting.definition) with
  | ok inst =>
    rw [folded] at found
    exact ⟨inst, rfl, Option.some.inj found⟩
  | error failure =>
    rw [folded] at found
    cases found

end AgentForge.Engine
