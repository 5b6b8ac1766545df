import AgentForge.Guarantees.Effects
import AgentForge.Library.Interleaving

/-!
# The order of outbox statuses

Calls of the guard and rollbacks side by side.  A mark is an unconditional
update, made long after the row was read: as long as every mark finds the row in
the status its call has seen, statuses move forward only; a stale call can take
an executed row back.
-/

namespace AgentForge.Guarantees

open Effects Engine Library

/-- The statuses in which a thread has seen the rows. -/
abbrev Sightings := String → Option EffectStatus

/-- What a claim or a listing shows. -/
def Sightings.track (seen : Sightings) : (op : GuardOp) → op.Result → Sightings
  | .claim entry, row => Function.update seen entry.idempotencyKey (some row.status)
  | .listForInstance _ _ status, rows => fun key =>
      if rows.any fun row => row.idempotencyKey = key then some status else seen key
  | _, _ => seen

/-- A call of the guard whose answer nobody waits for. -/
def detached {α : Type} (code : GuardCode α) : GuardCode Unit := do
  let _ ← code
  pure ()

/-- Guarded actions and rollbacks. -/
inductive GuardCall (guard : SideEffectGuard) : GuardCode Unit → Prop
  | execute (call : EffectCall) : GuardCall guard (detached (guard.execute call))
  | compensateInstance (instanceId tenantId : String) :
      GuardCall guard (detached (guard.compensateInstance instanceId tenantId))

/-- Calls of the guard over one outbox; every operation meets a condition. -/
def outboxRules (guard : SideEffectGuard) (condition : Sightings → Outside → GuardOp → Prop) :
    Pool.Rules Outside Sightings GuardOp GuardOp.Result Exn Unit where
  answers := fun seen outside op response next =>
    outside.answers op response next ∧ condition seen outside op
  track := Sightings.track
  admits := fun _ seen code => seen = (fun _ => none) ∧ GuardCall guard code

/-- Whoever marks a row finds it in the status it has seen it in. -/
def Timely (seen : Sightings) (outside : Outside) : GuardOp → Prop
  | .mark key _ => ∀ row, outside.rows.get? key = some row → seen key = some row.status
  | _ => True

/-- The statuses after which a call makes a mark. -/
def MarksAfter (seen : Sightings) : GuardOp → Prop
  | .mark key (.failed _) => seen key = some .pending ∨ seen key = some .failed
  | .mark key (.executed _ _) => seen key = some .pending ∨ seen key = some .failed
  | .mark key .compensated => seen key = some .executed
  | _ => True

/-- An executed row may only become compensated, a compensated one stays so. -/
def Forward (old new : EffectStatus) : Prop :=
  (old = .executed → new = .executed ∨ new = .compensated) ∧
    (old = .compensated → new = .compensated)

theorem Forward.refl (status : EffectStatus) : Forward status status :=
  ⟨.inl, id⟩

theorem Forward.trans {first second third : EffectStatus} (forward : Forward first second)
    (further : Forward second third) : Forward first third := by
  refine ⟨fun executed => ?_, fun compensated => further.2 (forward.2 compensated)⟩
  rcases forward.1 executed with same | compensated
  · exact further.1 same
  · exact .inr (further.2 compensated)

/-! ## What a call has seen when it marks a row -/

section Threads

variable {guard : SideEffectGuard} {condition : Sightings → Outside → GuardOp → Prop}
  {seen : Sightings}

/-- Code that marks rows after what it has seen only. -/
abbrev Marks {α : Type} (guard : SideEffectGuard)
    (condition : Sightings → Outside → GuardOp → Prop) (post : α → Sightings → Prop)
    (code : GuardCode α) (seen : Sightings) : Prop :=
  Program.Safe (Pool.alone (outboxRules guard condition) fun _ _ _ => True) MarksAfter post
    (fun _ _ => True) code seen

private theorem marks_carryOut (call : EffectCall) (supportsKey resuming : Bool)
    (open_ : seen (guard.idempotencyKey call) = some .pending ∨
      seen (guard.idempotencyKey call) = some .failed) :
    Marks guard condition (fun _ _ => True) (guard.carryOut call supportsKey resuming) seen := by
  have kept (current : Sightings) (op : GuardOp) (same : current = seen)
      (asks : op.asks (guard.request call)) : MarksAfter current op ∧ ∀ response next,
        Pool.alone (outboxRules guard condition) (fun _ _ _ => True) current op response next →
          next = seen := by
    cases op with
    | execute | reconcile => exact ⟨trivial, fun _ _ told => told.2.trans same⟩
    | _ => exact asks.elim
  have asked : Program.Safe (Pool.alone (outboxRules guard condition) fun _ _ _ => True) MarksAfter
      (fun _ current => True ∧ current = seen) (fun _ current => current = seen)
      (guard.ask call supportsKey resuming) seen :=
    (yields_ask guard call supportsKey resuming).safe kept (fun _ _ same => same) rfl
  refine asked.settle.bind ?_
  rintro (failure | result) current told
  · obtain rfl : current = seen := told
    dsimp only
    split
    · exact ⟨open_, fun _ _ _ => trivial⟩
    · trivial
  · obtain rfl : current = seen := told.2
    dsimp only
    split
    · exact ⟨open_, fun _ _ _ => trivial⟩
    · exact ⟨open_, fun _ _ _ => trivial⟩

theorem marks_execute (call : EffectCall) :
    Marks guard condition (fun _ _ => True) (guard.execute call) seen := by
  unfold SideEffectGuard.execute
  cases guard.provider call.providerName with
  | error failure => trivial
  | ok provider =>
    refine ⟨trivial, ?_⟩
    rintro row _ ⟨_, rfl⟩
    change Marks guard condition (fun _ _ => True)
      (guard.afterClaim call (provider.supportsIdempotencyKey call.effectName) row)
      (Function.update seen (guard.idempotencyKey call) (some row.status))
    unfold SideEffectGuard.afterClaim
    cases found : row.status with
    | executed => trivial
    | compensated => trivial
    | pending => exact marks_carryOut call _ _ (.inl (Function.update_self _ _ _))
    | failed => exact marks_carryOut call _ _ (.inr (Function.update_self _ _ _))

private theorem marks_undo (instanceId tenantId : String) {rows : List OutboxEntry}
    (executed : ∀ row ∈ rows, seen row.idempotencyKey = some .executed) :
    Marks guard condition (fun _ _ => True) (guard.undo instanceId tenantId rows) seen := by
  induction rows with
  | nil => trivial
  | cons row rest ih =>
    unfold SideEffectGuard.undo
    cases guard.provider row.provider with
    | error failure => trivial
    | ok provider =>
      refine ⟨trivial, ?_⟩
      rintro (failure | compensation) current ⟨_, told⟩
      · change Marks guard condition (fun _ _ => True) (ite _ _ _) current
        split
        · exact ⟨trivial, fun _ _ _ => trivial⟩
        · trivial
      · obtain rfl : current = seen := told
        refine ⟨executed row List.mem_cons_self, ?_⟩
        rintro _ next ⟨_, told⟩
        obtain rfl : next = current := told
        change Program.Safe _ _ _ _ (guard.undo instanceId tenantId rest >>= _) next
        exact Program.Safe.bind (ih fun other member =>
          executed other (List.mem_cons_of_mem _ member)) fun _ _ _ => trivial

theorem marks_compensateInstance (instanceId tenantId : String) :
    Marks guard condition (fun _ _ => True) (guard.compensateInstance instanceId tenantId)
      seen := by
  refine ⟨trivial, ?_⟩
  rintro rows _ ⟨_, rfl⟩
  refine marks_undo instanceId tenantId fun row member => ?_
  have listed : (rows.any fun other => other.idempotencyKey = row.idempotencyKey) = true :=
    List.any_eq_true.mpr ⟨row, List.mem_reverse.mp member, by simp⟩
  exact if_pos listed

end Threads

/-! ## Every interleaving -/

section Runs

variable {guard : SideEffectGuard} {condition : Sightings → Outside → GuardOp → Prop}

/-- Every thread marks rows after what it has seen only. -/
theorem kept_marks (guard : SideEffectGuard)
    (condition : Sightings → Outside → GuardOp → Prop) :
    Pool.Kept (outboxRules guard condition) (fun _ _ _ => True) MarksAfter (fun _ _ => True)
      (fun _ _ => True) fun _ _ => True where
  safe := by
    rintro i seen code ⟨_, isCall⟩
    cases isCall with
    | execute call => exact (marks_execute call).bind fun _ _ _ => trivial
    | compensateInstance instanceId tenantId =>
      exact (marks_compensateInstance instanceId tenantId).bind fun _ _ _ => trivial
  spawned := fun _ _ _ _ _ _ _ _ => trivial
  performed := fun _ _ _ _ _ _ _ _ _ _ _ => ⟨trivial, trivial⟩

theorem status_of_claimed {outside : Outside} {entry row : OutboxEntry}
    (stored : outside.rows.get? entry.idempotencyKey = some row) :
    (outside.claimed entry).status = row.status := by
  unfold Outside.claimed
  rw [stored]

/-- An operation that marks in time moves every row forward. -/
theorem forward_of_answers {seen : Sightings} {outside next : Outside} {op : GuardOp}
    {response : op.Result} (marks : MarksAfter seen op) (timely : Timely seen outside op)
    (answered : outside.answers op response next) {key : String} {row : OutboxEntry}
    (stored : outside.rows.get? key = some row) :
    ∃ later, next.rows.get? key = some later ∧ Forward row.status later.status := by
  cases op with
  | claim entry =>
    obtain ⟨_, rfl⟩ := answered
    dsimp only
    rw [Dict.get?_set]
    by_cases same : key = entry.idempotencyKey
    · subst same
      rw [if_pos rfl]
      exact ⟨_, rfl, status_of_claimed stored ▸ .refl _⟩
    · rw [if_neg same]
      exact ⟨row, stored, .refl _⟩
  | mark marked marking =>
    obtain rfl : next = { outside with rows := outside.marked marked marking } := answered
    dsimp only
    rw [get?_marked]
    by_cases same : key = marked
    · subst same
      rw [if_pos rfl, stored]
      refine ⟨_, rfl, ?_⟩
      have noted := timely row stored
      cases marking with
      | compensationFailed error => exact .refl _
      | compensated =>
        have found : row.status = .executed := Option.some.inj (noted.symm.trans marks)
        rw [found]
        exact ⟨fun _ => .inr rfl, nofun⟩
      | failed | executed =>
        have found : row.status = .pending ∨ row.status = .failed :=
          marks.imp (fun seen => Option.some.inj (noted.symm.trans seen))
            fun seen => Option.some.inj (noted.symm.trans seen)
        rcases found with found | found <;> rw [found] <;> exact ⟨nofun, nofun⟩
    · rw [if_neg same]
      exact ⟨row, stored, .refl _⟩
  | listForInstance =>
    obtain ⟨_, rfl⟩ := answered
    exact ⟨row, stored, .refl _⟩
  | execute =>
    rcases answered with rfl | rfl <;> exact ⟨row, stored, .refl _⟩
  | reconcile =>
    obtain rfl : next = outside := answered
    exact ⟨row, stored, .refl _⟩
  | compensate =>
    cases answered
    exact ⟨row, stored, .refl _⟩

end Runs

/-- If every mark finds its row in the status its call has seen, statuses move
forward along every interleaving of guarded actions and rollbacks. -/
theorem outbox_forward (guard : SideEffectGuard) (start : Outside)
    (pool later : Pool Outside Sightings GuardOp GuardOp.Result Exn Unit)
    (begun : Pool.Run (outboxRules guard Timely) { world := start } pool)
    (run : Pool.Run (outboxRules guard Timely) pool later) :
    ∀ key row, pool.world.rows.get? key = some row →
      ∃ row', later.world.rows.get? key = some row' ∧ Forward row.status row'.status := by
  intro key row stored
  have kept := kept_marks guard Timely
  have sound := (Pool.sound_of_empty start trivial).run kept begun
  induction run with
  | refl => exact ⟨row, stored, .refl _⟩
  | @tail middle last before step ih =>
      obtain ⟨row', stored', forward⟩ := ih
      cases step with
      | spawn => exact ⟨row', stored', forward⟩
      | perform i found answered =>
          have marks := (sound.run kept before).meets found
          obtain ⟨row'', stored'', further⟩ :=
            forward_of_answers marks answered.2 answered.1 stored'
          exact ⟨row'', stored'', forward.trans further⟩

/-! ## Two mails and their rollback -/

/-- The test for `Timely`. -/
def marksSeen (seen : Sightings) (outside : Outside) : GuardOp → Bool
  | .mark key _ => (outside.rows.get? key).all fun row => seen key = some row.status
  | _ => true

theorem timely_of_marksSeen {seen : Sightings} {outside : Outside} {op : GuardOp}
    (passed : marksSeen seen outside op = true) : Timely seen outside op := by
  cases op with
  | mark key marking =>
    intro row stored
    rw [marksSeen, stored] at passed
    exact of_decide_eq_true passed
  | _ => trivial

abbrev OutboxTurn := Pool.Turn Sightings GuardOp GuardOp.Result Exn Unit Outside.Behaviour

/-- Two calls run side by side. -/
def mailsSent : List OutboxTurn :=
  [.start 0 (fun _ => none) (detached (mailGuard.execute mailCall)),
    .start 1 (fun _ => none) (detached (mailGuard.execute { mailCall with stepId := "remind" })),
    .run 0 {}, .run 1 {}, .run 1 {}, .run 0 {}, .run 0 {}, .run 1 {}]

/-- A rollback undoes both. -/
def mailsUndone : List OutboxTurn :=
  [.start 2 (fun _ => none) (detached (mailGuard.compensateInstance "instance" "tenant")),
    .run 2 {}, .run 2 {}, .run 2 {}, .run 2 {}, .run 2 {}]

/-- The statuses of the rows. -/
def statuses (pool : Pool Outside Sightings GuardOp GuardOp.Result Exn Unit) : List EffectStatus :=
  pool.world.rows.values.map OutboxEntry.status

/-- Two calls execute their rows in turns, and a rollback compensates them. -/
theorem outbox_forward_mails :
    ∃ pool later, Pool.Run (outboxRules mailGuard Timely) { world := {} } pool ∧
      Pool.Run (outboxRules mailGuard Timely) pool later ∧
      statuses pool = [.executed, .executed] ∧ statuses later = [.compensated, .compensated] ∧
      ∀ key row, pool.world.rows.get? key = some row →
        ∃ row', later.world.rows.get? key = some row' ∧ Forward row.status row'.status := by
  let answer (behaviour : Outside.Behaviour) (_ : Sightings) (outside : Outside) :=
    outside.answer behaviour
  let follow := Pool.follow (outboxRules mailGuard Timely) marksSeen answer
  have answered (behaviour : Outside.Behaviour) (seen : Sightings) (outside : Outside)
      (op : GuardOp) (passed : marksSeen seen outside op = true) :
      (outboxRules mailGuard Timely).answers seen outside op (answer behaviour seen outside op).1
        (answer behaviour seen outside op).2 :=
    ⟨outside.answers_answer behaviour op, timely_of_marksSeen passed⟩
  have begun := Pool.run_follow answered mailsSent (by
    intro i notes code member
    simp only [mailsSent, List.mem_cons, Pool.Turn.start.injEq, reduceCtorEq, List.not_mem_nil,
      or_false] at member
    rcases member with ⟨_, rfl, rfl⟩ | ⟨_, rfl, rfl⟩ <;> exact ⟨rfl, .execute _⟩) { world := {} }
  have run := Pool.run_follow answered mailsUndone (by
    intro i notes code member
    simp only [mailsUndone, List.mem_cons, Pool.Turn.start.injEq, reduceCtorEq, List.not_mem_nil,
      or_false] at member
    obtain ⟨_, rfl, rfl⟩ := member
    exact ⟨rfl, .compensateInstance _ _⟩) (follow mailsSent { world := {} })
  exact ⟨_, _, begun, run, by decide +kernel, by decide +kernel,
    outbox_forward mailGuard {} _ _ begun run⟩

/-! ## A stale call -/

/-- Two calls claim the row; the first performs the action and marks it. -/
def firstMarks : List OutboxTurn :=
  [.start 0 (fun _ => none) (detached (mailGuard.execute mailCall)),
    .start 1 (fun _ => none) (detached (mailGuard.execute mailCall)),
    .run 0 {}, .run 1 {}, .run 0 {}, .run 0 {}]

/-- The second asks the provider in vain and marks the row too. -/
def secondMarks : List OutboxTurn :=
  [.run 1 { known := .error (.keyError "message-id") }, .run 1 {}]

/-- A call that claimed the row before another one executed the effect takes the
row from `executed` back to `failed`. -/
theorem outbox_taken_back :
    ∃ pool later : Pool Outside Sightings GuardOp GuardOp.Result Exn Unit,
      Pool.Run (outboxRules mailGuard fun _ _ _ => True) { world := {} } pool ∧
      Pool.Run (outboxRules mailGuard fun _ _ _ => True) pool later ∧
      (pool.world.rows.get? (mailGuard.idempotencyKey mailCall)).map OutboxEntry.status =
        some .executed ∧
      (later.world.rows.get? (mailGuard.idempotencyKey mailCall)).map OutboxEntry.status =
        some .failed := by
  let answer (behaviour : Outside.Behaviour) (_ : Sightings) (outside : Outside) :=
    outside.answer behaviour
  let follow := Pool.follow (outboxRules mailGuard fun _ _ _ => True) (fun _ _ _ => true) answer
  have answered (behaviour : Outside.Behaviour) (seen : Sightings) (outside : Outside)
      (op : GuardOp) (_ : true = true) : (outboxRules mailGuard fun _ _ _ => True).answers seen
        outside op (answer behaviour seen outside op).1 (answer behaviour seen outside op).2 :=
    ⟨outside.answers_answer behaviour op, trivial⟩
  refine ⟨follow firstMarks { world := {} }, follow secondMarks (follow firstMarks { world := {} }),
    Pool.run_follow answered _ ?_ _, Pool.run_follow answered _ ?_ _, ?_, ?_⟩
  · intro i notes code member
    simp only [firstMarks, List.mem_cons, Pool.Turn.start.injEq, reduceCtorEq, List.not_mem_nil,
      or_false] at member
    rcases member with ⟨_, rfl, rfl⟩ | ⟨_, rfl, rfl⟩ <;> exact ⟨rfl, .execute mailCall⟩
  · intro i notes code member
    simp [secondMarks] at member
  · decide +kernel
  · decide +kernel

end AgentForge.Guarantees
