import AgentForge.Refinement.Concurrent
import AgentForge.Refinement.Reach

/-!
# One actor at a time

While an actor is alone, what it has in hand is the fold of the whole log.  The
rule for runs of a single actor carries an invariant of the world and of what
the actor remembers, whatever of its program has been performed.
-/

namespace AgentForge.Refinement

open Domain Events Library Engine Protocol
open Program

/-! ## Calls made on conditions -/

/-- Worlds that the actors of a setting lead to, one after the other, each of
them called in a world in which it may be called. -/
inductive ReachableIf (setting : Setting) (may : World → Actor → Prop)
    (ends : World → Code (Option DriveReport) → Prop) : World → Prop
  | fresh {world : World} : world.Fresh setting → ReachableIf setting may ends world
  | act {world next : World} {residual : Code (Option DriveReport)} (actor : Actor) :
      ReachableIf setting may ends world →
      setting.admits actor →
      may world actor →
      Steps (answers setting) world (actor.program setting) next residual →
      ends next residual →
      ReachableIf setting may ends next

variable {ends : World → Code (Option DriveReport) → Prop} {may : World → Actor → Prop}
  {setting : Setting}

theorem ReachableIf.reachable {world : World} (reachable : ReachableIf setting may ends world) :
    Reachable setting ends world := by
  induction reachable with
  | fresh isFresh => exact .fresh isFresh
  | act actor _ admitted _ steps stopped ih => exact .act actor ih admitted steps stopped

/-- Every actor of the script may be called where it is, and may stop where it
does. -/
def PerformableIf (setting : Setting) (oracle : Oracle) (may : World → Actor → Prop)
    (ends : World → Code (Option DriveReport) → Prop) : List (Nat × Actor) → World → Prop
  | [], _ => True
  | (count, actor) :: rest, world =>
      setting.admits actor ∧ may world actor ∧
        ends (execute setting oracle count actor world).1
          (execute setting oracle count actor world).2 ∧
        PerformableIf setting oracle may ends rest (execute setting oracle count actor world).1

theorem ReachableIf.executeAll {oracle : Oracle} {script : List (Nat × Actor)} {world : World}
    (reachable : ReachableIf setting may ends world)
    (performable : PerformableIf setting oracle may ends script world) :
    ReachableIf setting may ends (Engine.executeAll setting oracle script world) := by
  induction script generalizing world with
  | nil => exact reachable
  | cons entry rest ih =>
    obtain ⟨count, actor⟩ := entry
    obtain ⟨admitted, called, stops, later⟩ := performable
    exact ih (.act actor reachable admitted called
      (steps_runFor (World.answers_answer setting oracle) count world _) stops) later

/-! ## Runs of a single actor -/

section Alone

variable {setting : Setting} {world next : World} {actor : Actor} {grasp : Hand}

/-- What is in hand is the fold of the log. -/
def AtTip (log : List Event) (hand : Hand) : Prop :=
  ∀ inst, hand.held = some inst → fold log hand.definition = .ok inst

theorem AtTip.abreast {log : List Event} {hand : Hand} (atTip : AtTip log hand) :
    Abreast log hand :=
  .of_fold atTip

theorem AtTip.after {op : Op} {response : op.Result} (atTip : AtTip world.log grasp)
    (grounded : Grounded actor grasp op) (answered : answers setting world op response next) :
    AtTip next.log (grasp.after op response) := by
  rcases hand_after_cases atTip.abreast grounded answered with
    whole | ⟨sameHeld, sameRead, sameLog⟩
  · exact whole
  · intro inst held
    rw [sameLog, sameRead]
    exact atTip inst (sameHeld ▸ held)

/-- An invariant of the world and of what a single actor remembers, wherever the
actor stops. -/
theorem exists_grasp_of_steps {sem : Semantics World Op Op.Result}
    (admitted : ∀ world op response next, sem world op response next →
      answers setting world op response next) {invariant : World → Hand → Prop}
    (kept : ∀ world grasp op response next, invariant world grasp →
      AtTip world.log grasp → Based actor grasp op →
      sem world op response next → invariant next (grasp.after op response))
    {residual : Code (Option DriveReport)}
    (steps : Steps sem world (actor.program setting) next residual)
    (initial : invariant world {}) : ∃ grasp, invariant next grasp ∧ AtTip next.log grasp ∧
      Bases actor (fun _ grasp => grasp.due = false) residual grasp := by
  have start : AtTip world.log ({} : Hand) := by
    intro inst held
    cases held
  have safe := bases_program setting actor
  generalize actor.program setting = code at steps safe
  generalize ({} : Hand) = grasp at initial start safe
  induction steps generalizing grasp with
  | refl world program => exact ⟨grasp, initial, start, safe⟩
  | @step world middle final op response rest residual answered _ ih =>
    have based := safe.1
    have told := admitted _ _ _ _ answered
    have credible := credible_of_answers start.abreast based.grounded told
    exact ih _ (kept world grasp op response middle initial start based answered)
      (start.after based.grounded told) (safe.2 response _ ⟨credible, rfl⟩)

/-- What an actor appends is based on the log as it is. -/
theorem based_program (actor : Actor) (world : World) : Safe (answers setting)
      (fun world op => ∃ grasp, AtTip world.log grasp ∧ Based actor grasp op)
      (fun _ _ => True) (fun _ _ => True) (actor.program setting) world := by
  have simulates (world : World) (grasp : Hand) (op : Op) (response : op.Result) (next : World)
      (atTip : AtTip world.log grasp) (based : Based actor grasp op)
      (answered : answers setting world op response next) :
      ∃ grasp', inGrasp grasp op response grasp' ∧ AtTip next.log grasp' :=
    ⟨_, ⟨credible_of_answers atTip.abreast based.grounded answered, rfl⟩,
      atTip.after based.grounded answered⟩
  have start : AtTip world.log ({} : Hand) := by
    intro inst held
    cases held
  exact (Safe.simulate simulates (bases_program setting actor) start).mono
    (fun _ _ holds => holds) (fun _ _ _ => trivial) fun _ _ _ => trivial

end Alone

end AgentForge.Refinement
