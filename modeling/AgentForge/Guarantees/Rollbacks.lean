import AgentForge.Effects.Site
import AgentForge.Engine.Discipline
import AgentForge.Events.FoldLaws
import AgentForge.Guarantees.Effects

/-!
# What a rollback undoes

A rollback hands the executed rows of the outbox to the providers.  It undoes
everything that has landed if every landed action has such a row by then and the
compensation handlers perform no actions themselves.
-/

namespace AgentForge.Guarantees

open Domain Effects Engine Events Library

/-- When the guard is asked to compensate the instance, every action that has
landed is listed as executed, or was handed to `compensate` before. -/
def Traced (setting : Setting) (site : Site) : Op → Prop
  | .compensateInstance _ _ => ∀ request ∈ site.outside.landed,
      request.instanceId = setting.instanceId →
        request.idempotencyKey ∈ site.outside.handed ∨
          ∃ row ∈ site.outside.listed setting.instanceId setting.tenantId .executed,
            row.idempotencyKey = request.idempotencyKey
  | _ => True

/-- Sites whose rollbacks begin in such states. -/
def traced (setting : Setting) (guard : SideEffectGuard) : Semantics Site Op Op.Result :=
  fun site op response next => wired setting guard site op response next ∧ Traced setting site op

/-- The log begins with an event of the instance. -/
def Owned (setting : Setting) (log : List Event) : Prop :=
  ∃ first rest, log = first :: rest ∧ first.owner = setting.owner

section Handing

variable {setting : Setting} {guard : SideEffectGuard} {site next : Site} {op : Op} {hand : Hand}
  {response : op.Result} {instanceId tenantId : String} {inst : WorkflowInstance}

theorem Owned.wired (owned : Owned setting site.journal.log)
    (answered : wired setting guard site op response next) : Owned setting next.journal.log := by
  rcases journal_of_wired answered with same | answered
  · exact same ▸ owned
  · obtain ⟨first, rest, begins, isOwn⟩ := owned
    obtain ⟨batch, grown⟩ := log_of_answers answered
    exact ⟨first, rest ++ batch, by rw [grown, begins, List.cons_append], isOwn⟩

/-- What a site and the hand of its worker have in common. -/
private structure InLockstep (setting : Setting) (site : Site) (hand : Hand) : Prop where
  owned : Owned setting site.journal.log
  held : ∀ inst, hand.held = some inst → inst.owner = setting.owner
  undone : hand.undone = true → AllHanded setting.instanceId site.outside

/-- The instance in hand stays the one of the setting. -/
private theorem owner_of_foldNew {events : List Event}
    (held : ∀ inst, hand.held = some inst → inst.owner = setting.owner)
    (folded : hand.foldNew events = some inst) : inst.owner = setting.owner := by
  obtain ⟨base, found, folded⟩ := Option.bind_eq_some_iff.mp folded
  obtain ⟨definition, _, folded⟩ := Option.bind_eq_some_iff.mp folded
  unfold foldOnto at folded
  cases result : fold events (some definition) (some base) with
  | error failure =>
    rw [result] at folded
    cases folded
  | ok next =>
    rw [result] at folded
    cases folded
    exact (owner_of_fold_base result).trans (held base found)

private theorem owner_of_read {world : World} {definition : Option WorkflowDefinition}
    (owned : Owned setting world.log)
    (found : world.read setting instanceId tenantId definition = .ok (some inst)) :
    inst.owner = setting.owner := by
  obtain ⟨first, rest, begins, isOwn⟩ := owned
  unfold World.read at found
  split at found
  · cases folded : fold world.log definition with
    | error failure =>
      rw [folded] at found
      cases found
    | ok read =>
      rw [folded] at found
      cases found
      rw [begins] at folded
      exact (owner_of_fold folded).trans isOwn
  · cases found

/-- A completed rollback of the guard has handed over everything. -/
private theorem allHanded_of_compensateInstance {undone : List EffectOutcome}
    (isOwn : (instanceId, tenantId) = setting.owner)
    (answered : traced setting guard site (.compensateInstance instanceId tenantId) (.ok undone)
      next) : AllHanded setting.instanceId next.outside := by
  obtain ⟨⟨_, residual, run, told⟩, traced⟩ := answered
  cases isOwn
  cases residual with
  | raise failure => rcases told with told | ⟨_, told, _⟩ <;> cases told
  | perform op rest =>
    obtain ⟨_, told, _⟩ := told
    cases told
  | done outcomes =>
    obtain ⟨landed, kept, handed⟩ := handed_of_compensateInstance run
    intro request member isOwn
    rw [landed] at member
    rcases traced request member isOwn with before | ⟨row, listed, same⟩
    · exact kept before
    · exact same ▸ handed row listed

/-- Operations outside the guard leave a hand as it is, but for these. -/
private def handles : Op → Bool
  | .getInstance .. => true
  | .appendNew .. => true
  | op => guarded op

private theorem InLockstep.idle {hand hand' : Hand} (inStep : InLockstep setting site hand)
    (owned : Owned setting next.journal.log) (outside : next.outside = site.outside)
    (held : hand'.held = hand.held) (undone : hand'.undone = hand.undone) :
    InLockstep setting next hand' where
  owned := owned
  held := held ▸ inStep.held
  undone := by
    rw [outside, undone]
    exact inStep.undone

private theorem after_of_not_handles (idle : handles op = false) (response : op.Result) :
    (hand.after op response).held = hand.held ∧ (hand.after op response).undone = hand.undone := by
  cases op with
  | getInstance | appendNew | executeEffect | compensateInstance => cases idle
  | _ => exact ⟨rfl, rfl⟩

/-- A drive and its site stay in step. -/
private theorem InLockstep.after {terms : Terms} (inStep : InLockstep setting site hand)
    (disciplined : Disciplined terms hand op)
    (answered : traced setting guard site op response next) :
    InLockstep setting next (hand.after op response) := by
  have owned := inStep.owned.wired answered.1
  by_cases idle : handles op = false
  · have unguarded : guarded op = false := by
      cases op with
      | getInstance | appendNew => rfl
      | _ => exact idle
    obtain ⟨held, undone⟩ := after_of_not_handles idle response
    exact inStep.idle owned ((wired_of_not_guarded unguarded).mp answered.1).2 held undone
  · cases op with
    | getInstance instanceId tenantId definition =>
      obtain ⟨⟨read, _⟩, outside⟩ := answered.1
      cases response with
      | error failure => exact inStep.idle owned outside rfl rfl
      | ok found =>
        refine ⟨owned, ?_, fun undone => outside ▸ inStep.undone undone⟩
        rintro inst rfl
        exact owner_of_read inStep.owned read.symm
    | appendNew =>
      have outside : next.outside = site.outside := answered.1.2
      cases response with
      | error failure =>
        refine ⟨owned, ?_, fun undone => outside ▸ inStep.undone undone⟩
        rintro inst ⟨⟩
      | ok appended =>
        obtain ⟨last, events⟩ := appended
        refine ⟨owned, fun inst folded => owner_of_foldNew inStep.held folded, ?_⟩
        rintro ⟨⟩
    | executeEffect => exact ⟨owned, inStep.held, nofun⟩
    | compensateInstance instanceId tenantId =>
      obtain ⟨inst, held, isOwn⟩ := disciplined.orderly
      cases response with
      | ok undone =>
        exact ⟨owned, inStep.held, fun _ => allHanded_of_compensateInstance
          (isOwn.trans (inStep.held inst held)) answered⟩
      | error failure => exact ⟨owned, inStep.held, nofun⟩
    | _ => exact absurd rfl idle

end Handing

end AgentForge.Guarantees
