import AgentForge.Guarantees.Interruptions
import AgentForge.Leasing.LeaseStore
import AgentForge.Refinement.Alarms

/-!
# Parked instances have the right alarm

The index row of an instance says when it is to be claimed again.  The row is
not folded from events: every commit overwrites it with what the append passes
along.  It has an alarm exactly while the workflow is parked, and then that of
the earliest retry, so that a drive which comes after it finds a step to run.
-/

namespace AgentForge.Guarantees

open Domain Events Library Engine Protocol Refinement Store Leasing
open Program

/-! ## The index row next to the log -/

/-- The world of an instance, with the tables that hold its index row. -/
structure Indexed where
  world : World
  tables : EventStore

namespace Indexed

/-- A commit upserts the row of the instance it has projected; nothing else
touches the row. -/
def Upserts (state next : Indexed) : (op : Op) → op.Result → Prop
  | .appendNew _ _ _ _ _ nextWakeupAt, .ok _ => ∃ inst, fold next.world.log = .ok inst ∧
      next.tables = state.tables.upsertIndex inst nextWakeupAt
  | _, _ => next.tables = state.tables

def answers (setting : Setting) : Semantics Indexed Op Op.Result :=
  fun state op response next => Engine.answers setting state.world op response next.world ∧
    state.Upserts next op response

/-- The tables after an operation. -/
def tablesAfter (state : Indexed) (log : List Event) : (op : Op) → op.Result → EventStore
  | .appendNew _ _ _ _ _ nextWakeupAt, .ok _ =>
      match fold log with
      | .ok inst => state.tables.upsertIndex inst nextWakeupAt
      | .error _ => state.tables
  | _, _ => state.tables

/-- An executable answer. -/
def answer (setting : Setting) (oracle : Oracle) (state : Indexed) (op : Op) :
    op.Result × Indexed :=
  let told := state.world.answer setting oracle op
  (told.1, { world := told.2, tables := state.tablesAfter told.2.log op told.1 })

theorem answers_answer (setting : Setting) (oracle : Oracle) (state : Indexed) (op : Op) :
    answers setting state op (state.answer setting oracle op).1
      (state.answer setting oracle op).2 := by
  have told := state.world.answers_answer setting oracle op
  refine ⟨told, ?_⟩
  unfold answer
  generalize state.world.answer setting oracle op = answered at told
  obtain ⟨response, world⟩ := answered
  cases op with
  | appendNew =>
    cases response with
    | error failure => rfl
    | ok appended =>
      rcases told with ⟨_, failed, _⟩ | ⟨committed, _⟩
      · cases failed
      obtain ⟨_, _, _, _, ⟨inst, folded⟩, rfl⟩ := commit_eq_ok committed
      refine ⟨inst, folded, ?_⟩
      simp only [tablesAfter, folded]
  | _ => rfl

/-- The instance has just been created; its first append sets no alarm. -/
structure Fresh (setting : Setting) (state : Indexed) : Prop where
  world : state.world.Fresh setting
  row : ∃ tables inst, fold state.world.log = .ok inst ∧
    state.tables = EventStore.upsertIndex tables inst none

end Indexed

/-- The alarm is that of the earliest retry while the workflow is parked, and
then no step is running; otherwise there is none. -/
structure RightAlarm (log : List Event) (alarm : Option Time) : Prop where
  awake : (replay log).status ≠ .retrying → alarm = none
  parked : (replay log).status = .retrying → Still log ∧
    ∃ time, alarm = some time ∧ EarliestRetry (replay log).steps time

/-- A batch that sets the alarm that goes with it leaves the right one. -/
theorem RightAlarm.of_alarms {log batch : List Event} {alarm : Option Time}
    (alarms : Alarms log (batch.map Event.payload) alarm) : RightAlarm (log ++ batch) alarm := by
  cases alarm with
  | none =>
    obtain ⟨awake, changes⟩ := alarms
    refine ⟨fun _ => rfl, fun asleep => absurd asleep ?_⟩
    rw [replay_append]
    apply not_retrying_afterAll (List.forall_mem_map.mp awake)
    refine changes.imp_right ?_
    rintro ⟨_, listed, moves⟩
    obtain ⟨event, member, rfl⟩ := List.mem_map.mp listed
    exact ⟨event, member, moves⟩
  | some time =>
    obtain ⟨payloads, still, earliest⟩ := alarms
    obtain ⟨event, rfl, payload⟩ := List.map_eq_singleton_iff.mp payloads
    have steps : (replay (log ++ [event])).steps = (replay log).steps := by
      rw [replay_concat, State.after, payload]
      rfl
    have status : (replay (log ++ [event])).status = .retrying := by
      rw [replay_concat, State.after, payload]
      rfl
    refine ⟨fun awake => absurd status awake, fun _ => ⟨fun stepId => ?_, time, rfl, ?_⟩⟩
    · rw [steps]
      exact still stepId
    · rwa [steps]

theorem exists_row_upsertIndex (tables : EventStore) (inst : WorkflowInstance)
    (nextWakeupAt : Option Time) :
    ∃ row, (tables.upsertIndex inst nextWakeupAt).index.get? inst.instanceId = some row ∧
      row.nextWakeupAt = nextWakeupAt := by
  unfold EventStore.upsertIndex
  dsimp only
  rw [Dict.get?_set_self]
  refine ⟨_, rfl, ?_⟩
  split <;> rfl

/-- The row of the instance has the right alarm. -/
def RowRight (setting : Setting) (state : Indexed) : Prop :=
  ∃ row, state.tables.index.get? setting.instanceId = some row ∧
    RightAlarm state.world.log row.nextWakeupAt

section Rows

variable {setting : Setting} {state next : Indexed} {inst : WorkflowInstance}

/-- Whatever is appended, the log folds to the instance of the setting. -/
private theorem instanceId_of_fold {world : World} {batch : List Event}
    (consistent : Consistent setting world) (folded : fold (world.log ++ batch) = .ok inst) :
    inst.instanceId = setting.instanceId := by
  obtain ⟨full, fullOk, owner⟩ := consistent.folds
  obtain ⟨first, rest, begins⟩ := List.exists_cons_of_ne_nil (ne_nil_of_fold fullOk)
  rw [begins] at folded fullOk
  have same : inst.owner = setting.owner :=
    (owner_of_fold folded).trans ((owner_of_fold fullOk).symm.trans owner)
  exact congrArg Prod.fst same

/-- A row that the instance has been upserted with. -/
private theorem rowRight_of_upsert {tables : EventStore} {nextWakeupAt : Option Time}
    (instanceId : inst.instanceId = setting.instanceId)
    (upserted : state.tables = tables.upsertIndex inst nextWakeupAt)
    (right : RightAlarm state.world.log nextWakeupAt) : RowRight setting state := by
  obtain ⟨row, found, alarm⟩ := exists_row_upsertIndex tables inst nextWakeupAt
  rw [← upserted, instanceId] at found
  exact ⟨row, found, alarm ▸ right⟩

/-- Every operation keeps the row right, as long as appends set the right
alarms. -/
private theorem RowRight.after {op : Op} {response : op.Result} (right : RowRight setting state)
    (consistent : Consistent setting state.world) (alarmed : Alarmed state.world op)
    (answered : Indexed.answers setting state op response next) : RowRight setting next := by
  obtain ⟨told, upserts⟩ := answered
  have unchanged (sameLog : next.world.log = state.world.log)
      (sameTables : next.tables = state.tables) : RowRight setting next := by
    unfold RowRight
    rwa [sameLog, sameTables]
  cases op with
  | appendNew instanceId tenantId drafts expectedVersion guarded nextWakeupAt =>
    rcases told with ⟨failure, rfl, sameWorld⟩ | ⟨committed, rfl⟩
    · exact unchanged (congrArg World.log sameWorld) upserts
    · obtain ⟨inst, folded, upserted⟩ := upserts
      obtain ⟨_, current, _, _, _, grown⟩ := commit_eq_ok committed
      have log := congrArg World.log grown
      rw [log] at folded
      refine rowRight_of_upsert (instanceId_of_fold consistent folded) upserted ?_
      rw [log]
      apply RightAlarm.of_alarms
      rw [payload_resequence]
      exact alarmed current
  | _ => exact unchanged (log_of_unwritten told trivial) upserts

end Rows

/-! ## The drive after the alarm -/

section Waking

variable {setting : Setting} {world next : World} {inst : WorkflowInstance}

variable (monotone : setting.monotoneClock)

include monotone

end Waking

/-! ## Every reachable state -/

end AgentForge.Guarantees
