import AgentForge.Refinement.Drive
import AgentForge.Refinement.Operators

/-!
# Reachable worlds

Every actor keeps to the conduct, so every reachable world is consistent, and it
owes nothing of the kinds that no interrupted actor leaves behind.
-/

namespace AgentForge.Refinement

open Domain Events Library Engine Protocol

variable {setting : Setting} {care : Care} {world next : World}
  {ends : World → Code (Option DriveReport) → Prop}

/-- What is left behind by an actor that has come to its end. -/
def Ended (setting : Setting) (care : Care) (report : Option DriveReport) (world : World) : Prop :=
  Consistent setting world ∧
    (¬ Interrupted (.done report) → Tidy setting care world)

private theorem keeps_silent {α : Type} {code : Code α}
    (keeps : Keeps setting care (fun _ next => Clear setting care next) code world) :
    Keeps setting care (Ended setting care) (silent code) world :=
  keeps.bind fun _ _ clear => ⟨clear.consistent, fun _ => clear.tidy⟩

/-- The runners of all drives leave the charging to the model calls. -/
def MeteredDrives (setting : Setting) : Prop :=
  ∀ config lease, setting.admits (.drive config lease) → Metered config

/-- Every actor keeps to the conduct. -/
theorem keeps_program {actor : Actor} (admitted : setting.admits actor)
    (careful : care.reviews → ¬ (rulesOf setting).requeues)
    (metered : care.charges → MeteredDrives setting) (clear : Clear setting care world) :
    Keeps setting care (Ended setting care) (actor.program setting) world := by
  cases actor with
  | drive config lease =>
    exact (keeps_drive careful (fun cares => metered cares config lease admitted)
      clear.consistent clear.tidy).bind
      fun report _ ended => ⟨ended.1, fun kept => ended.2 kept⟩
  | pause operator =>
    exact keeps_silent (keeps_controlTransition clear ⟨operator, .inl admitted⟩ (by simp))
  | resume operator =>
    exact keeps_silent (keeps_controlTransition clear ⟨operator, .inr (.inl admitted)⟩ (by simp))
  | abort operator =>
    exact keeps_silent (keeps_controlTransition clear ⟨operator, .inr (.inr admitted)⟩ (by simp))
  | resolve request => exact keeps_silent (keeps_resolve clear)
  | expireDue now limit => exact keeps_silent (keeps_expireDue clear)
  | requeue dlqId requeuedBy =>
    exact keeps_silent (keeps_requeue clear ⟨dlqId, requeuedBy, admitted⟩)

/-! ## Fresh worlds -/

theorem clear_of_fresh (fresh : world.Fresh setting) : Clear setting care world := by
  obtain ⟨event, clock, issued, owned, first, isGenesis, rfl⟩ := fresh
  obtain ⟨budgetLimitUsd, initial⟩ := replay_genesis isGenesis
  obtain ⟨inst, folded⟩ := exists_fold_of_genesis isGenesis first (some setting.definition)
  constructor
  case consistent =>
    constructor
    case folds => exact ⟨inst, folded, (owner_of_fold folded).trans owned⟩
    case run => exact .genesis isGenesis
    case rest =>
      constructor
      · rw [initial]
        rintro stepId ⟨⟩
      · rw [initial]
        rintro _ _ ref ⟨⟩
    case issued =>
      rw [initial]
      rintro ref ⟨⟩
    case rows =>
      intro escalationId row found
      cases found
    case deadLetters => rintro row ⟨⟩
    case attempts => rintro _ record ⟨⟩
    case positions => rintro record ⟨⟩
  case tidy =>
    constructor
    case retries =>
      rintro _ stepId owed
      obtain ⟨failed, _⟩ := (retryOwed_iff folded stepId).mp owed
      rw [initial] at failed
      cases failed
    case reviews => rintro _ ⟨record, ⟨⟩, _⟩
    case calls => rintro _ ⟨record, ⟨⟩, _⟩

/-! ## Runs of actors -/

/-- Where actors stop, nothing of the kinds cared for is left undone. -/
def LeavesTidy (setting : Setting) (care : Care)
    (ends : World → Code (Option DriveReport) → Prop) : Prop :=
  ∀ world residual, ends world residual → Interrupted residual → Tidy setting care world

/-- Every reachable world is consistent and owes nothing. -/
theorem clear_of_reachable (leaves : LeavesTidy setting care ends)
    (careful : care.reviews → ¬ (rulesOf setting).requeues)
    (metered : care.charges → MeteredDrives setting)
    (reachable : Reachable setting ends world) : Clear setting care world := by
  induction reachable with
  | fresh isFresh => exact clear_of_fresh isFresh
  | @act world next residual actor _ admitted steps stopped ih =>
    have keeps := (keeps_program admitted careful metered ih).steps steps
    have consistent : Consistent setting next := by
      cases residual with
      | done report => exact keeps.1
      | raise failure => exact keeps
      | perform op rest => exact keeps.1.1
    refine ⟨consistent, ?_⟩
    by_cases interrupted : Interrupted residual
    · exact leaves next residual stopped interrupted
    · cases residual with
      | done report => exact keeps.2 interrupted
      | raise failure => exact absurd trivial interrupted
      | perform op rest => exact absurd trivial interrupted

/-- A law that holds in fresh worlds and that operations keep, as long as the
conduct is kept, holds in every reachable world. -/
theorem law_of_reachable (law : World → Prop) (leaves : LeavesTidy setting care ends)
    (careful : care.reviews → ¬ (rulesOf setting).requeues)
    (metered : care.charges → MeteredDrives setting)
    (initially : ∀ world, world.Fresh setting → law world)
    (kept : ∀ world op response next, law world → Conduct setting care world op →
      answers setting world op response next → law next)
    (reachable : Reachable setting ends world) :
    law world := by
  induction reachable with
  | fresh isFresh => exact initially _ isFresh
  | act actor before admitted steps _ ih =>
    have clear := clear_of_reachable leaves careful metered before
    exact (keeps_program admitted careful metered clear).preserves kept steps ih

/-- No kind of debt. -/
def noCare : Care :=
  ⟨False, False, False, False⟩

theorem leavesTidy_noCare (setting : Setting)
    (ends : World → Code (Option DriveReport) → Prop) : LeavesTidy setting noCare ends :=
  fun _ _ _ _ => ⟨False.elim, False.elim, False.elim⟩

theorem consistent_of_reachable (reachable : Reachable setting ends world) :
    Consistent setting world :=
  (clear_of_reachable (leavesTidy_noCare setting ends) False.elim False.elim reachable).consistent

end AgentForge.Refinement
