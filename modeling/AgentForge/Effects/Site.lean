import AgentForge.Effects.Guard
import AgentForge.Engine.Execution

/-!
# Workers wired with the guard

The world of a worker whose side effects go through the guard: the journal of
the instance, and the outbox with whatever lies behind it.  A side effect of a
step and a rollback of the instance are runs of the guard's programs; such a run
may be cut off anywhere, when the time of the step is up or the process ends.
-/

namespace AgentForge.Effects

open Domain Engine Events Library

structure Site where
  journal : World
  outside : Outside

/-- What the log of the instance says. -/
def Site.entries (site : Site) : List Payload :=
  site.journal.log.map Event.payload

/-- The arguments of `execute` for an effect of a step of the instance. -/
def effectCall (setting : Setting) (stepId effectName : String) (params : JsonDict)
    (provider : String) : EffectCall where
  instanceId := setting.instanceId
  tenantId := setting.tenantId
  stepId := stepId
  effectName := effectName
  params := params
  providerName := provider

/-- A call is cut off by a timeout or a cancellation. -/
def CutOff {β : Type} (response : Except Exn β) : Prop :=
  ∃ failure, response = .error failure ∧
    (failure.exnClass = .timeout ∨ failure.isException = false)

/-- What a worker is told of a call of the guard, by what is left of it.  It may be
cut off at its last await too, when all its work is done. -/
def Told {α β : Type} (report : α → β) : GuardCode α → Except Exn β → Prop
  | .done value, response => response = .ok (report value) ∨ CutOff response
  | .raise failure, response => response = .error failure ∨ CutOff response
  | .perform _ _, response => CutOff response

/-- The answers of a site. -/
def wired (setting : Setting) (guard : SideEffectGuard) (site : Site) :
    (op : Op) → op.Result → Site → Prop
  | .executeEffect stepId effectName params provider, response, next =>
      next.journal = site.journal ∧ ∃ residual,
        Program.Steps Outside.answers site.outside
          (guard.execute (effectCall setting stepId effectName params provider)) next.outside
          residual ∧ Told Outcome.report residual response
  | .compensateInstance instanceId tenantId, response, next =>
      next.journal = site.journal ∧ ∃ residual,
        Program.Steps Outside.answers site.outside
          (guard.compensateInstance instanceId tenantId) next.outside residual ∧
          Told (List.map Outcome.report) residual response
  | op, response, next =>
      answers setting site.journal op response next.journal ∧ next.outside = site.outside

theorem journal_of_wired {setting : Setting} {guard : SideEffectGuard} {site next : Site}
    {op : Op} {response : op.Result} (answered : wired setting guard site op response next) :
    next.journal = site.journal ∨ answers setting site.journal op response next.journal := by
  cases op with
  | executeEffect | compensateInstance => exact .inl answered.1
  | _ => exact .inr answered.1

/-- Operations that go through the guard. -/
def guarded : Op → Bool
  | .executeEffect .. => true
  | .compensateInstance .. => true
  | _ => false

theorem wired_of_not_guarded {setting : Setting} {guard : SideEffectGuard} {site next : Site}
    {op : Op} {response : op.Result} (unguarded : guarded op = false) :
    wired setting guard site op response next ↔
      answers setting site.journal op response next.journal ∧ next.outside = site.outside := by
  cases op with
  | executeEffect | compensateInstance => cases unguarded
  | _ => exact Iff.rfl

/-! ## Surroundings that answer by a function -/

/-- One way in which everything a worker talks to may behave, with a state of
its own. -/
structure Surroundings (setting : Setting) where
  State : Type
  site : State → Site
  engine : State → (op : Op) → op.Result × State
  guard : State → (op : GuardOp) → op.Result × State
  engine_ok : ∀ state op, guarded op = false →
    answers setting (site state).journal op (engine state op).1
        (site (engine state op).2).journal ∧
      (site (engine state op).2).outside = (site state).outside
  guard_ok : ∀ state op,
    (site state).outside.answers op (guard state op).1 (site (guard state op).2).outside ∧
      (site (guard state op).2).journal = (site state).journal

namespace Surroundings

variable {setting : Setting} (surroundings : Surroundings setting) (guard : SideEffectGuard)

/-- The answer to every operation of a worker that is wired with the guard. -/
def answer (state : surroundings.State) : (op : Op) → op.Result × surroundings.State
  | .executeEffect stepId effectName params provider =>
      let ran := Program.evaluate surroundings.guard
        (guard.execute (effectCall setting stepId effectName params provider)) state
      (ran.1.map Outcome.report, ran.2)
  | .compensateInstance instanceId tenantId =>
      let ran := Program.evaluate surroundings.guard
        (guard.compensateInstance instanceId tenantId) state
      (ran.1.map (List.map Outcome.report), ran.2)
  | op => surroundings.engine state op

theorem journal_guard {α : Type} (code : GuardCode α) (state : surroundings.State) :
    (surroundings.site (Program.evaluate surroundings.guard code state).2).journal =
      (surroundings.site state).journal := by
  induction code generalizing state with
  | done value => rfl
  | raise failure => rfl
  | perform op next ih => exact (ih _ _).trans (surroundings.guard_ok state op).2

/-- A call of the guard to its end is a run of the outside world. -/
theorem steps_guard {α : Type} (code : GuardCode α) (state : surroundings.State) :
    Program.Steps Outside.answers (surroundings.site state).outside code
      (surroundings.site (Program.evaluate surroundings.guard code state).2).outside
      (Program.ended (Program.evaluate surroundings.guard code state).1) :=
  let view (state : surroundings.State) : Outside := (surroundings.site state).outside
  have admitted (state : surroundings.State) (op : GuardOp) :
      (view state).answers op (surroundings.guard state op).1
        (view (surroundings.guard state op).2) :=
    (surroundings.guard_ok state op).1
  Program.steps_evaluate admitted code state

private theorem told_ended {α β : Type} (report : α → β) (result : Except Exn α) :
    Told report (Program.ended result) (result.map report) := by
  cases result with
  | ok value => exact .inl rfl
  | error failure => exact .inl rfl

theorem wired_answer (state : surroundings.State) (op : Op) :
    wired setting guard (surroundings.site state) op (surroundings.answer guard state op).1
      (surroundings.site (surroundings.answer guard state op).2) := by
  cases op with
  | executeEffect stepId effectName params provider =>
    let code := guard.execute (effectCall setting stepId effectName params provider)
    exact ⟨surroundings.journal_guard code state, _, surroundings.steps_guard code state,
      told_ended _ _⟩
  | compensateInstance instanceId tenantId =>
    let code := guard.compensateInstance instanceId tenantId
    exact ⟨surroundings.journal_guard code state, _, surroundings.steps_guard code state,
      told_ended _ _⟩
  | _ => exact surroundings.engine_ok state _ rfl

/-- Journals that take every append, and providers of a fixed behaviour. -/
def simple (setting : Setting) (oracle : Oracle) (behaviour : Outside.Behaviour) :
    Surroundings setting where
  State := Site
  site := id
  engine := fun site op =>
    let answered := site.journal.answer setting oracle op
    (answered.1, { site with journal := answered.2 })
  guard := fun site op =>
    let answered := site.outside.answer behaviour op
    (answered.1, { site with outside := answered.2 })
  engine_ok := fun site op _ => ⟨site.journal.answers_answer setting oracle op, rfl⟩
  guard_ok := fun site op => ⟨site.outside.answers_answer behaviour op, rfl⟩

end Surroundings

/-! ## What a completed rollback of the guard has done -/

/-- The actions of an instance that have landed were all handed to
`compensate`. -/
def AllHanded (instanceId : String) (outside : Outside) : Prop :=
  ∀ request ∈ outside.landed, request.instanceId = instanceId →
    request.idempotencyKey ∈ outside.handed

section Undo

variable {guard : SideEffectGuard} {instanceId tenantId : String} {start outside final : Outside}

/-- Every listed row has been handed to `compensate`, nothing new has landed. -/
private structure Handed (start : Outside) (rows : List OutboxEntry) (outside : Outside) :
    Prop where
  landed : outside.landed = start.landed
  kept : start.handed ⊆ outside.handed
  handed : ∀ row ∈ rows, row.idempotencyKey ∈ outside.handed

private theorem handed_undo {before rows : List OutboxEntry}
    (handed : Handed start before outside) :
    Program.Safe Outside.answers (fun _ _ => True)
      (fun _ final => Handed start (before ++ rows) final) (fun _ _ => True)
      (guard.undo instanceId tenantId rows) outside := by
  induction rows generalizing before outside with
  | nil =>
    rw [List.append_nil]
    exact handed
  | cons row rest ih =>
    unfold SideEffectGuard.undo
    cases guard.provider row.provider with
    | error failure => trivial
    | ok provider =>
      refine ⟨trivial, ?_⟩
      rintro (failure | compensation) _ rfl
      · change Program.Safe _ _ _ _ (ite _ _ _) _
        split
        · exact ⟨trivial, fun _ _ _ => trivial⟩
        · trivial
      · refine ⟨trivial, ?_⟩
        rintro _ _ rfl
        change Program.Safe _ _ _ _ (guard.undo instanceId tenantId rest >>= _) _
        have more (rows : Dict String OutboxEntry) : Handed start (before ++ [row])
            { rows := rows, landed := outside.landed,
              handed := outside.handed ++ [row.idempotencyKey] } := by
          refine ⟨handed.landed, fun _ old => List.mem_append_left _ (handed.kept old), ?_⟩
          intro other member
          rcases List.mem_append.mp member with old | new
          · exact List.mem_append_left _ (handed.handed other old)
          · exact List.mem_append_right _ (List.mem_singleton.mp new ▸ List.mem_singleton_self _)
        refine Program.Safe.bind (ih (more _)) fun _ final handed => ?_
        rwa [List.append_assoc] at handed

/-- A rollback that has come to its end has handed over every executed row. -/
theorem handed_of_compensateInstance {outcomes : List Outcome}
    (run : Program.Steps Outside.answers outside
      (guard.compensateInstance instanceId tenantId) final (.done outcomes)) :
    final.landed = outside.landed ∧ outside.handed ⊆ final.handed ∧
      ∀ row ∈ outside.listed instanceId tenantId .executed, row.idempotencyKey ∈ final.handed := by
  have safe : Program.Safe Outside.answers (fun _ _ => True)
      (fun _ final => Handed outside (outside.listed instanceId tenantId .executed).reverse final)
      (fun _ _ => True) (guard.compensateInstance instanceId tenantId) outside := by
    refine ⟨trivial, ?_⟩
    rintro _ current ⟨rfl, rfl⟩
    have initial : Handed current [] current := ⟨rfl, fun _ old => old, nofun⟩
    exact handed_undo initial
  have handed : Handed outside _ final := safe.steps run
  exact ⟨handed.landed, handed.kept, fun row listed =>
    handed.handed row (List.mem_reverse.mpr listed)⟩

end Undo

end AgentForge.Effects
