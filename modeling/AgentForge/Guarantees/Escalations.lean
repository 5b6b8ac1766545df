import AgentForge.Guarantees.Journal
import Mathlib.Data.List.Infix

/-!
# Pending escalations

An escalation can be answered while its workflow waits for an approval.  One
answer sends the whole workflow on, so a second escalation that is still pending
then cannot be answered any more.
-/

namespace AgentForge.Guarantees

open Domain Events Library Store Engine Protocol Refinement

variable {setting : Setting} {world : World}

/-- Every pending escalation waits in a workflow that waits for an approval,
unless the workflow has failed or come to its end. -/
def Answerable (setting : Setting) (world : World) : Prop :=
  ∀ escalationId row, world.escalations.get? escalationId = some row → row.status = .pending →
    ∀ inst, fold world.log (some setting.definition) = .ok inst →
      inst.status ≠ .failed → inst.status ≠ .completed → inst.status ≠ .rolledBack →
        inst.status = .waitingApproval

/-- Drives, answers and expiries take part, nobody else. -/
def Actor.isUnattended : Actor → Bool
  | .drive _ _ | .resolve _ | .expireDue _ _ => true
  | _ => false

/-- Whenever the workflow goes on after an escalation of a step was closed, no
other escalation is unresolved. -/
def ClosesAlone (definition : WorkflowDefinition) (log : List Event) : Prop :=
  EachAt (fun before event => ∀ closed, proceeds event.payload closed →
    ∀ inst, fold before (some definition) = .ok inst →
      ∀ ref ∈ inst.escalations, ref.resolved = false → ref.escalationId = closed) log

private theorem loneClosings_of_closesAlone {ends : World → Code (Option DriveReport) → Prop}
    (reachable : Reachable setting ends world)
    (alone : ClosesAlone setting.definition world.log) : LoneClosings world.log := by
  intro before event after split closed proceed ref member unresolved
  have later : event.isGenesis = false := by
    unfold Event.isGenesis
    cases payload : event.payload <;> simp_all [proceeds]
  obtain ⟨inst, next, moment⟩ := moment_of_split reachable split later
  rw [← view_of_fold moment.folds] at member
  exact alone before event after split closed proceed inst moment.folds ref member unresolved

/-- Pending escalations can be answered as long as no two of them wait at once
when one is answered. -/
theorem answerable_of_closesAlone
    (unattended : ∀ actor, setting.admits actor → Actor.isUnattended actor = true)
    (reachable : Reachable setting (fun _ residual => Finished residual) world)
    (alone : ClosesAlone setting.definition world.log) : Answerable setting world := by
  have consistent := consistent_of_reachable reachable
  have noOperators : ¬ (rulesOf setting).operators := by
    rintro ⟨operator, paused | resumed | aborted⟩
    · cases unattended _ paused
    · cases unattended _ resumed
    · cases unattended _ aborted
  intro escalationId row found pending inst folded notFailed notCompleted notRolledBack
  obtain ⟨_, _, ref, member, _, _, unresolved⟩ := consistent.rows escalationId row found
  have parked := consistent.rest.parked noOperators (loneClosings_of_closesAlone reachable alone)
    ref member (unresolved pending)
  rw [← view_of_fold folded] at parked
  change parks inst.status = true at parked
  cases status : inst.status <;> simp_all [parks]

/-- Two steps that need approvals, one after the other. -/
def relayWorkflow : WorkflowDefinition where
  workflowId := "relay"
  version := "1.0.0"
  steps :=
    [{ stepId := "first", agentType := "agent", requiresApproval := true },
      { stepId := "second", agentType := "agent", requiresApproval := true,
        dependencies := ["first"] }]
  valid := rfl

def relaySetting : Setting :=
  .simple relayWorkflow fun actor => Actor.isUnattended actor = true

def relayDrive : Actor :=
  driveWith relaySetting (.done { output := Dict.empty })

/-- The first step waits for its approval. -/
def firstHeld : World :=
  executeAll relaySetting {} [(50, relayDrive)] (.opened relaySetting none)

/-- It has been approved and run, and the second one waits. -/
def secondHeld : World :=
  executeAll relaySetting {}
    [(20, .resolve
        { escalationId := firstHeld.escalationIds.headD "", tenantId := "tenant",
          resolution := .approve, resolvedBy := "operator" }),
      (50, relayDrive)]
    firstHeld

/-- The escalation that an event closes. -/
def closedBy : Payload → Option String
  | .escalationResolved escalationId _ _ _ _ => some escalationId
  | .escalationTimedOut escalationId _ _ => some escalationId
  | _ => none

private theorem closedBy_of_proceeds {payload : Payload} {closed : String}
    (proceed : proceeds payload closed) : closedBy payload = some closed := by
  cases payload with
  | escalationResolved | escalationTimedOut => exact congrArg some proceed.1
  | _ => exact proceed.elim

/-- A test for `ClosesAlone`. -/
def closesAlone (definition : WorkflowDefinition) (log : List Event) : Bool :=
  log.inits.all fun before => (log.drop before.length).head?.all fun event =>
    (closedBy event.payload).all fun closed =>
      (fold before (some definition)).toOption.all fun inst =>
        inst.escalations.all fun ref => ref.resolved || ref.escalationId = closed

theorem closesAlone_of_test {definition : WorkflowDefinition} {log : List Event}
    (passed : closesAlone definition log = true) : ClosesAlone definition log := by
  rintro before event after rfl closed proceed inst folded ref member unresolved
  have here := List.all_eq_true.mp passed before ((List.mem_inits _ _).mpr ⟨_, rfl⟩)
  simp only [List.drop_left, List.head?_cons, Option.all_some, closedBy_of_proceeds proceed,
    folded, Except.toOption] at here
  simpa [unresolved] using List.all_eq_true.mp here ref member

/-- One escalation has been closed, and another one is pending. -/
theorem answerable_secondHeld :
    (∃ event ∈ secondHeld.log, (closedBy event.payload).isSome = true) ∧
      (∃ entry ∈ secondHeld.escalations.entries, entry.2.status = .pending) ∧
      Answerable relaySetting secondHeld := by
  refine ⟨by decide +kernel, by decide +kernel, ?_⟩
  have first : Reachable relaySetting (fun _ residual => Finished residual) firstHeld :=
    (reachable_opened relaySetting _ none).executeAll ⟨rfl, by decide +kernel, trivial⟩
  have second : Reachable relaySetting (fun _ residual => Finished residual) secondHeld :=
    first.executeAll ⟨rfl, by decide +kernel, rfl, by decide +kernel, trivial⟩
  exact answerable_of_closesAlone (fun _ admitted => admitted) second
    (closesAlone_of_test (by decide +kernel))

/-- Two steps that need approvals at once. -/
def twinWorkflow : WorkflowDefinition where
  workflowId := "twins"
  version := "1.0.0"
  steps :=
    [{ stepId := "left", agentType := "agent", requiresApproval := true },
      { stepId := "right", agentType := "agent", requiresApproval := true }]
  valid := rfl

def twinSetting : Setting :=
  .simple twinWorkflow fun actor => Actor.isUnattended actor = true

/-- Both steps wait for their approvals. -/
def twinsHeld : World :=
  executeAll twinSetting {} [(80, driveWith twinSetting (.done { output := Dict.empty }))]
    (.opened twinSetting none)

theorem reachable_twinsHeld :
    Reachable twinSetting (fun _ residual => Finished residual) twinsHeld :=
  (reachable_opened twinSetting _ none).executeAll ⟨rfl, by decide +kernel, trivial⟩

/-- One of the two steps has been approved. -/
def twinApproved : World :=
  executeAll twinSetting {}
    [(20, .resolve
      { escalationId := twinsHeld.escalationIds.headD "", tenantId := "tenant",
        resolution := .approve, resolvedBy := "operator" })]
    twinsHeld

/-- The other escalation is pending, but the workflow does not wait for it. -/
theorem twin_not_answerable :
    Reachable twinSetting (fun _ residual => Finished residual) twinApproved ∧
      twinApproved.status twinSetting = some .running ∧ ¬ Answerable twinSetting twinApproved := by
  have running : twinApproved.status twinSetting = some .running := by decide +kernel
  have pending : ∃ entry ∈ twinApproved.escalations.entries, entry.2.status = .pending := by
    decide +kernel
  refine ⟨reachable_twinsHeld.executeAll ⟨rfl, by decide +kernel, trivial⟩, running, ?_⟩
  generalize twinApproved = world at *
  intro answerable
  obtain ⟨inst, folded, status⟩ := exists_fold_of_status running
  obtain ⟨⟨escalationId, row⟩, listed, waits⟩ := pending
  have waiting := answerable escalationId row (Dict.get?_eq_some_iff.mpr listed) waits inst folded
  rw [status] at waiting
  simp at waiting

end AgentForge.Guarantees
