import AgentForge.Refinement.Concurrent

/-!
# Decisions of operators stand

Once a pause or an abort has been appended, the workflow stays paused or failed
until an operator decides otherwise, however the operations of drives, sweeps,
resolutions and operators interleave; and until it is resumed no step starts,
completes or fails.  Whoever has read an older log is refused by the store, and
whoever has read the decision has no grounds to append anything but the
recovery of steps that a dead worker left running.
-/

namespace AgentForge.Guarantees

open Domain Events Library Engine Protocol Refinement

/-! ## Decisions -/

/-- The status that an operator's call moves the workflow to. -/
def decision : Actor → Option WorkflowStatus
  | .pause _ => some .paused
  | .resume _ => some .running
  | .abort _ => some .failed
  | _ => none

/-- A step of the pool in which an operator's call appends its decision. -/
inductive Decides (setting : Setting) (target : WorkflowStatus) : Actors → Actors → Prop
  | appended {pool : Actors} (i : Nat) {acting : Acting} {op : Op}
      {rest : op.Result → Code (Option DriveReport)} {response : op.Result} {world : World} :
      decision acting.actor = some target →
      pool.threads i = some ⟨acting, .perform op rest⟩ →
      answers setting pool.world op response world →
      world.log ≠ pool.world.log →
      Decides setting target pool (pool.resume i world ⟨acting.after op response, rest response⟩)

/-- The calls that take a decision back. -/
def overrules : WorkflowStatus → Actor → Prop
  | .paused, .resume _ => True
  | .paused, .abort _ => True
  | .failed, .resume _ => True
  | _, _ => False

def resumes : Actor → Prop
  | .resume _ => True
  | _ => False

/-- Actors of a kind append nothing. -/
def without (kind : Actor → Prop) : Condition :=
  fun acting world _ next => kind acting.actor → next.log = world.log

/-- The event starts, completes or fails a step. -/
def runsStep : Payload → Prop
  | .stepStarted .. => True
  | .stepCompleted .. => True
  | .stepFailed .. => True
  | _ => False

theorem not_runsStep_of_recovers {payload : Payload} (recovering : recovers payload) :
    ¬ runsStep payload := by
  cases payload with
  | stepStatusChanged => exact id
  | _ => exact recovering.elim

/-! ## What is appended to a halted instance -/

def halted (status : WorkflowStatus) : Prop :=
  status = .paused ∨ status = .failed

theorem not_workable_of_halted {status : WorkflowStatus} (isHalted : halted status) :
    ¬ workable status := by
  rcases isHalted with rfl | rfl <;> exact id

/-- The log folds to an instance of this status. -/
def FoldsTo (target : WorkflowStatus) (log : List Event) : Prop :=
  ∃ inst, fold log = .ok inst ∧ inst.status = target

section Commits

variable {setting : Setting} {world next : World} {hand : Hand} {actor : Actor}
  {batch : List Event} {inst : WorkflowInstance} {target : WorkflowStatus}

theorem FoldsTo.status (stands : FoldsTo target world.log)
    (committed : Committed setting actor hand world next batch inst) : inst.status = target := by
  obtain ⟨plain, folded, rfl⟩ := stands
  rw [status_of_fold committed.folded, status_of_fold folded]

/-- The status after a batch that leaves it alone. -/
theorem FoldsTo.leave (stands : FoldsTo target world.log)
    (committed : Committed setting actor hand world next batch inst)
    (leaves : ∀ event ∈ batch, leavesStatus event.payload) : FoldsTo target next.log := by
  obtain ⟨result, accepted⟩ := committed.accepted
  obtain rfl := committed.next
  refine ⟨result, accepted, ?_⟩
  obtain ⟨plain, folded, rfl⟩ := stands
  rw [status_of_fold accepted, replay_append, status_afterAll_of_leavesStatus leaves,
    status_of_fold folded]

/-- The status after an operator's move. -/
theorem foldsTo_of_moves (committed : Committed setting actor hand world next batch inst)
    (moves : Moves target inst (batch.map Event.payload)) : FoldsTo target next.log := by
  obtain ⟨result, accepted⟩ := committed.accepted
  obtain rfl := committed.next
  refine ⟨result, accepted, ?_⟩
  obtain ⟨reason, single⟩ := moves.single
  obtain ⟨event, rfl, payload⟩ := List.map_eq_singleton_iff.mp single
  rw [status_of_fold accepted, replay_append]
  change ((replay world.log).advance event.payload).status = target
  rw [payload]
  rfl

/-- To a halted instance, actors append recoveries, the abort of a pause or its
resumption. -/
theorem halted_cases (committed : Committed setting actor hand world next batch inst)
    (isHalted : halted inst.status) : (∀ event ∈ batch, recovers event.payload) ∨
      (inst.status = .paused ∧ overrules .paused actor ∧
        Moves .failed inst (batch.map Event.payload)) ∨
      overrules inst.status actor ∧ resumes actor := by
  have appends := committed.appends
  cases actor with
  | drive config lease =>
    rcases appends.2 with work | recovering
    · exact absurd work (not_workable_of_halted isHalted)
    · exact .inl (List.forall_mem_map.mp recovering)
  | pause operator =>
    have moves : Moves .paused inst (batch.map Event.payload) := appends
    rcases isHalted with paused | failed
    · exact absurd paused moves.elsewhere
    · have allowed := moves.allowed
      rw [failed] at allowed
      cases allowed
  | resume operator => rcases isHalted with paused | failed <;> simp [*, overrules, resumes]
  | abort operator =>
    have moves : Moves .failed inst (batch.map Event.payload) := appends
    rcases isHalted with paused | failed
    · exact .inr (.inl ⟨paused, trivial, moves⟩)
    · exact absurd failed moves.elsewhere
  | resolve | expireDue | requeue =>
    have waiting := isHalted
    rw [show inst.status = _ from appends.1] at waiting
    rcases waiting with impossible | impossible <;> cases impossible

end Commits

/-! ## Along interleavings -/

section Runs

variable {setting : Setting} {target : WorkflowStatus} {pool decided later : Actors}

/-- The decision stands until it is overruled. -/
theorem upholds_foldsTo (halting : halted target) :
    Upholds setting (without (overrules target)) fun world => FoldsTo target world.log := by
  intro acting world op response next stands abreast based answered meets
  rcases log_or_committed abreast based.grounded answered with sameLog | ⟨batch, inst, committed⟩
  · rwa [sameLog]
  · have status := stands.status committed
    have isHalted : halted inst.status := status ▸ halting
    have grown : ¬ overrules target acting.actor := by
      intro overruling
      have sameLog := meets overruling
      rw [committed.next] at sameLog
      exact committed.nonempty (List.append_right_eq_self.mp sameLog)
    rcases halted_cases committed isHalted with recovering | ⟨paused, overruling, _⟩ | overruling
    · exact stands.leave committed fun event member =>
        leavesStatus_of_recovers (recovering event member)
    · rw [← status, paused] at grown
      exact absurd overruling grown
    · rw [← status] at grown
      exact absurd overruling.1 grown

/-- What the log has gained since a decision. -/
structure Idles (before : List Event) (world : World) : Prop where
  stands : ∃ target, halted target ∧ FoldsTo target world.log
  gained : ∃ gained, world.log = before ++ gained ∧ ∀ event ∈ gained, ¬ runsStep event.payload

theorem upholds_idles (before : List Event) : Upholds setting (without resumes) (Idles before) := by
  intro acting world op response next idles abreast based answered meets
  obtain ⟨⟨target, halting, stands⟩, gained, grown, quiet⟩ := idles
  rcases log_or_committed abreast based.grounded answered with sameLog | ⟨batch, inst, committed⟩
  · exact ⟨⟨target, halting, by rwa [sameLog]⟩, gained, by rw [sameLog, grown], quiet⟩
  · have isHalted : halted inst.status := stands.status committed ▸ halting
    have extended : next.log = before ++ (gained ++ batch) := by
      rw [committed.next, grown, List.append_assoc]
    have more (silent : ∀ event ∈ batch, ¬ runsStep event.payload) :
        ∀ event ∈ gained ++ batch, ¬ runsStep event.payload := by
      intro event member
      rcases List.mem_append.mp member with old | new
      · exact quiet event old
      · exact silent event new
    rcases halted_cases committed isHalted with recovering | ⟨_, _, moves⟩ | overruling
    · exact ⟨⟨target, halting, stands.leave committed fun event member =>
          leavesStatus_of_recovers (recovering event member)⟩, _, extended,
        more fun event member => not_runsStep_of_recovers (recovering event member)⟩
    · refine ⟨⟨.failed, .inr rfl, foldsTo_of_moves committed moves⟩, _, extended, more ?_⟩
      obtain ⟨reason, single⟩ := moves.single
      obtain ⟨event, rfl, payload⟩ := List.map_eq_singleton_iff.mp single
      simp [payload, runsStep]
    · have sameLog := meets overruling.2
      rw [committed.next] at sameLog
      exact absurd (List.append_right_eq_self.mp sameLog) committed.nonempty

/-- An appended decision takes effect. -/
theorem foldsTo_of_decides (inStep : InStep setting unconditionally (fun _ => True) pool)
    (decides : Decides setting target pool decided) :
    InStep setting unconditionally (fun world => FoldsTo target world.log) decided := by
  cases decides with
  | @appended i acting op rest response world deciding found answered grown =>
    have performed : Pool.Step (concurrently setting unconditionally) pool
        (pool.resume i world ⟨acting.after op response, rest response⟩) :=
      .perform i found ⟨answered, trivial⟩
    have later := InStep.run (fun _ _ _ _ _ _ _ _ _ _ => trivial) inStep (.single performed)
    refine later.turn ?_
    have noted : pool.notes i = some acting := by simp [Pool.notes, found]
    rcases log_or_committed (inStep.holds.2 i acting noted) (inStep.meets found).grounded
      answered with sameLog | ⟨batch, inst, committed⟩
    · exact absurd sameLog grown
    · have appends := committed.appends
      cases actor : acting.actor with
      | pause | resume | abort =>
        rw [actor] at appends deciding
        cases deciding
        exact foldsTo_of_moves committed appends
      | _ =>
        rw [actor] at deciding
        cases deciding

end Runs

/-- After a pause or an abort has been appended, the workflow stays paused or
failed until a call that takes the decision back appends its own, and no step
starts, completes or fails until the workflow is resumed. -/
theorem decisions_stand {setting : Setting} {target : WorkflowStatus} {pool decided : Actors}
    (reached : ReachedFrom setting unconditionally pool)
    (halting : target = .paused ∨ target = .failed)
    (decides : Decides setting target pool decided) :
    (∀ later, Pool.Run (concurrently setting (without (overrules target))) decided later →
      ∃ inst, fold later.world.log = .ok inst ∧ inst.status = target) ∧
    ∀ later, Pool.Run (concurrently setting (without resumes)) decided later →
      ∃ gained, later.world.log = decided.world.log ++ gained ∧
        ∀ event ∈ gained, ¬ runsStep event.payload := by
  have inStep := foldsTo_of_decides (inStep_of_reachedFrom reached) decides
  have stands : FoldsTo target decided.world.log := inStep.holds.1
  constructor
  · intro later run
    exact (InStep.run (upholds_foldsTo halting) (inStep.turn stands) run).holds.1
  · intro later run
    have idles : Idles decided.world.log decided.world :=
      ⟨⟨target, halting, stands⟩, [], (List.append_nil _).symm,
        fun _ member => absurd member List.not_mem_nil⟩
    exact (InStep.run (upholds_idles _) (inStep.turn idles) run).holds.1.gained

/-! ### A drive is paused while its step runs -/

/-- The next operation of a thread appends its decision. -/
def aboutToDecide (setting : Setting) (oracle : Oracle) (target : WorkflowStatus) (pool : Actors)
    (i : Nat) : Bool :=
  match pool.threads i with
  | some ⟨acting, .perform op _⟩ =>
      decision acting.actor = some target ∧
        (pool.world.answer setting oracle op).2.log.length ≠ pool.world.log.length
  | _ => false

theorem exists_decides {setting : Setting} {oracle : Oracle} {target : WorkflowStatus}
    {pool : Actors} {i : Nat} (about : aboutToDecide setting oracle target pool i = true) :
    ∃ decided, Decides setting target pool decided := by
  unfold aboutToDecide at about
  split at about
  · next acting op rest found =>
    obtain ⟨deciding, grown⟩ := of_decide_eq_true about
    exact ⟨_, .appended i deciding found (pool.world.answers_answer setting oracle op)
      fun sameLog => grown (congrArg List.length sameLog)⟩
  · cases about

/-- A workflow with one step. -/
def tidyWorkflow : WorkflowDefinition where
  workflowId := "tidy"
  version := "1"
  steps := [{ stepId := "sweep", agentType := "broom" }]
  valid := by decide

def tidySetting : Setting :=
  .simple tidyWorkflow fun _ => True

def sweepingDrive : Actor :=
  driveWith tidySetting (pure { output := Dict.empty })

/-- The step has started and its worker is about to run it; an operator who has
read the instance is about to append a pause. -/
@[irreducible]
def sweepStarted : Actors :=
  interleave tidySetting {} [(0, .inl sweepingDrive), (0, .inr 12),
    (1, .inl (.pause "operator")), (1, .inr 3)] { world := World.opened tidySetting none }

theorem decisions_stand_sweepStarted :
    ∃ decided, Decides tidySetting .paused sweepStarted decided ∧
      (∀ later, Pool.Run (concurrently tidySetting (without (overrules .paused))) decided later →
        ∃ inst, fold later.world.log = .ok inst ∧ inst.status = .paused) ∧
      ∀ later, Pool.Run (concurrently tidySetting (without resumes)) decided later →
        ∃ gained, later.world.log = decided.world.log ++ gained ∧
          ∀ event ∈ gained, ¬ runsStep event.payload := by
  have reached : ReachedFrom tidySetting unconditionally sweepStarted := by
    unfold sweepStarted
    exact ⟨_, ⟨_, 0, [], rfl, rfl, rfl, rfl⟩, run_interleave (fun _ => trivial) _ _ _⟩
  obtain ⟨decided, decides⟩ := @exists_decides tidySetting {} .paused sweepStarted 1
    (by decide +kernel)
  exact ⟨decided, decides, decisions_stand reached (.inl rfl) decides⟩

end AgentForge.Guarantees
