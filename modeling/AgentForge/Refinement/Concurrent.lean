import AgentForge.Engine.Execution
import AgentForge.Library.Interleaving
import AgentForge.Refinement.Basis

/-!
# Actors side by side

Any number of actors over the world of one instance, their operations
interleaved in any order.  A thread notes who it is and what it has in hand.
What it has in hand is always what the log folded to when it was read, so that
an append which the store takes is based on the log as it is: whoever has read
an older log appends at a version that has passed.
-/

namespace AgentForge.Refinement

open Domain Events Library Engine Protocol Store
open Program

/-! ## The pool -/

/-- Who a thread is, and what it has in hand. -/
structure Acting where
  actor : Actor
  grasp : Hand := {}

def Acting.after (acting : Acting) (op : Op) (response : op.Result) : Acting :=
  { acting with grasp := acting.grasp.after op response }

/-- A condition on the steps of the threads: who performs which operation in
which world, and the world after. -/
abbrev Condition := Acting → World → Op → World → Prop

def unconditionally : Condition :=
  fun _ _ _ _ => True

/-- The actors of a setting side by side, all of whose steps meet a condition. -/
def concurrently (setting : Setting) (condition : Condition) :
    Pool.Rules World Acting Op Op.Result Exn (Option DriveReport) where
  answers acting world op response next :=
    answers setting world op response next ∧ condition acting world op next
  track := Acting.after
  admits _ acting code :=
    setting.admits acting.actor ∧ acting = { actor := acting.actor } ∧
      code = acting.actor.program setting

/-- The pool of a setting. -/
abbrev Actors := Pool World Acting Op Op.Result Exn (Option DriveReport)

/-- A pool that the actors of a setting lead to, starting with a fresh instance. -/
def ReachedFrom (setting : Setting) (condition : Condition) (pool : Actors) : Prop :=
  ∃ start : World, start.Fresh setting ∧
    Pool.Run (concurrently setting condition) { world := start } pool

/-! ## What is in hand is what the log was -/

/-- The instance in hand is the fold of the log up to its version. -/
def Abreast (log : List Event) (hand : Hand) : Prop :=
  ∀ inst, hand.held = some inst → fold (log.take inst.version) hand.definition = .ok inst

variable {hand : Hand} {setting : Setting} {log : List Event} {condition : Condition}

theorem Abreast.nothing (nothing : hand.held = none) : Abreast log hand := by
  intro inst held
  rw [nothing] at held
  cases held

/-- The rest of the log does not matter. -/
theorem Abreast.grow {log batch : List Event} (abreast : Abreast log hand) :
    Abreast (log ++ batch) hand := by
  intro inst held
  have folded := abreast inst held
  have version := version_of_fold folded
  rw [List.length_take] at version
  rw [List.take_append_of_le_length (by omega)]
  exact folded

/-- What is in hand at the version of the log is its fold. -/
theorem Abreast.folds {inst : WorkflowInstance} (abreast : Abreast log hand)
    (held : hand.held = some inst) (current : inst.version = log.length) :
    fold log hand.definition = .ok inst := by
  have folded := abreast inst held
  rwa [current, List.take_length] at folded

/-- A fold of the whole log may be taken in hand. -/
theorem Abreast.of_fold
    (folds : ∀ inst, hand.held = some inst → fold log hand.definition = .ok inst) :
    Abreast log hand := by
  intro inst held
  have folded := folds inst held
  rwa [version_of_fold folded, List.take_length]

section Steps

variable {setting : Setting} {world next : World} {grasp : Hand} {actor : Actor}

/-- A committed append of an actor that has the log in hand. -/
structure Committed (setting : Setting) (actor : Actor) (hand : Hand) (world next : World)
    (batch : List Event) (inst : WorkflowInstance) : Prop where
  folded : fold world.log hand.definition = .ok inst
  appends : Appends actor inst (batch.map Event.payload)
  nonempty : batch ≠ []
  accepted : ∃ inst, fold (world.log ++ batch) = .ok inst
  next : next = { world with
    log := world.log ++ batch, escalations := projectEscalations world.escalations batch }

variable (abreast : Abreast world.log grasp) {op : Op} {response : op.Result}

include abreast

/-- An append that the store takes is based on the log as it is. -/
theorem committed_of_commit {instanceId tenantId : String} {drafts : List Event}
    {expectedVersion : Nat} {guarded : Bool} {nextWakeupAt : Option Time}
    (grounded : Grounded actor grasp (.appendNew instanceId tenantId drafts expectedVersion guarded
      nextWakeupAt))
    (committed : world.commit setting instanceId tenantId drafts expectedVersion = .ok next) :
    ∃ inst, grasp.held = some inst ∧
      Committed setting actor grasp world next (resequence expectedVersion drafts) inst := by
  obtain ⟨inst, held, rfl, appends⟩ := grounded
  obtain ⟨_, current, _, nonempty, accepted, rfl⟩ := commit_eq_ok committed
  refine ⟨inst, held, abreast.folds held current, ?_, nonempty, accepted, rfl⟩
  rwa [payload_resequence]

variable (grounded : Grounded actor grasp op)

include grounded

variable (answered : answers setting world op response next)

include answered

/-- Whatever a thread does, the log stays as it is or an append is committed. -/
theorem log_or_committed :
    next.log = world.log ∨
      ∃ batch inst, Committed setting actor grasp world next batch inst := by
  cases logChange_of_answers answered with
  | same sameLog => exact .inl sameLog
  | committed committed =>
    obtain ⟨inst, _, append⟩ := committed_of_commit abreast grounded committed
    exact .inr ⟨_, inst, append⟩

/-- What is in hand after an operation: nothing, the fold of the whole log, or
what was in hand before, and then the log has not changed. -/
theorem hand_after_cases : (∀ inst, (grasp.after op response).held = some inst →
        fold next.log (grasp.after op response).definition = .ok inst) ∨
      (grasp.after op response).held = grasp.held ∧
        (grasp.after op response).definition = grasp.definition ∧ next.log = world.log := by
  cases op with
  | getDefinition =>
    refine .inl fun inst held => ?_
    cases (show grasp.held = none from grounded).symm.trans held
  | getInstance instanceId tenantId definition =>
    obtain ⟨rfl, rfl⟩ := answered
    cases found : next.read setting instanceId tenantId definition with
    | error failure => exact .inr ⟨rfl, rfl, rfl⟩
    | ok inst =>
      left
      rintro inst rfl
      change definition = grasp.definition at grounded
      subst grounded
      unfold World.read at found
      split at found
      · cases folded : fold next.log grasp.definition <;> rw [folded] at found <;> cases found
        exact folded
      · cases found
  | appendNew instanceId tenantId drafts expectedVersion guarded nextWakeupAt =>
    left
    rcases answered with ⟨failure, rfl, rfl⟩ | ⟨committed, rfl⟩
    · intro inst held
      cases held
    · obtain ⟨inst, held, append⟩ := committed_of_commit abreast grounded committed
      obtain rfl := append.next
      intro current folded
      change (grasp.held.bind fun inst => grasp.definition.bind fun definition =>
        (foldOnto definition inst _).toOption) = some current at folded
      rw [held] at folded
      change fold _ grasp.definition = _
      cases definition : grasp.definition with
      | none =>
        rw [definition] at folded
        cases folded
      | some definition' =>
        rw [definition] at folded
        have before := append.folded
        rw [definition] at before
        apply (fold_append before).mpr
        unfold foldOnto at folded
        dsimp only [Option.bind_some] at folded
        cases found : fold (resequence expectedVersion drafts) (some definition')
            (some inst) <;> rw [found] at folded <;> cases folded
        rfl
  | compensateInstance =>
    cases answered
    cases response <;> exact .inr ⟨rfl, rfl, rfl⟩
  | completeLLM =>
    cases response <;> cases answered <;> exact .inr ⟨rfl, rfl, rfl⟩
  | mark mark =>
    cases answered
    cases mark <;> exact .inr ⟨rfl, rfl, rfl⟩
  | now | newId | getDeadLetter | getEscalation | dueEscalations =>
    obtain ⟨_, rfl⟩ := answered
    exact .inr ⟨rfl, rfl, rfl⟩
  | recordDeadLetter =>
    rcases answered with ⟨_, _, rfl⟩ | ⟨_, rfl⟩ <;> exact .inr ⟨rfl, rfl, rfl⟩
  | _ =>
    cases answered
    exact .inr ⟨rfl, rfl, rfl⟩

/-- Threads stay abreast of the log. -/
theorem Abreast.after : Abreast next.log (grasp.after op response) := by
  rcases hand_after_cases abreast grounded answered with whole | ⟨sameHeld, sameRead, sameLog⟩
  · exact .of_fold whole
  · intro inst held
    rw [sameLog, sameRead]
    exact abreast inst (sameHeld ▸ held)

/-- A thread that is abreast of the log can rely on what it is told. -/
theorem credible_of_answers : Credible grasp op response := by
  cases op with
  | appendNew instanceId tenantId drafts expectedVersion guarded nextWakeupAt =>
    rintro last events rfl
    rcases answered with ⟨_, failed, _⟩ | ⟨committed, appended⟩
    · cases failed
    cases appended
    refine ⟨rfl, fun inst definition held read => ?_⟩
    obtain ⟨other, same, append⟩ := committed_of_commit abreast grounded committed
    obtain rfl : other = inst := Option.some.inj (same.symm.trans held)
    obtain ⟨bare, accepted⟩ := append.accepted
    obtain ⟨full, folded, _⟩ := (fold_agree (some definition) _).ok_right accepted
    have before := append.folded
    rw [read] at before
    exact ⟨full, (fold_append before).mp folded⟩
  | _ => trivial

end Steps

/-! ## Laws of the world -/

/-- Every thread is abreast of the log and safe with what it has in hand, and
the world obeys a law. -/
abbrev InStep (setting : Setting) (condition : Condition) (law : World → Prop) (pool : Actors) :
    Prop :=
  Pool.Sound (concurrently setting condition) (fun acting => Credible acting.grasp)
    (fun acting => Based acting.actor acting.grasp) (fun _ _ => True) (fun _ _ => True)
    (fun world all => law world ∧
      ∀ i acting, all i = some acting → Abreast world.log acting.grasp) pool

/-- Whatever a thread does with the log in hand, the law is kept. -/
def Upholds (setting : Setting) (condition : Condition) (law : World → Prop) : Prop :=
  ∀ acting world op response next, law world → Abreast world.log acting.grasp →
    Based acting.actor acting.grasp op → answers setting world op response next →
    condition acting world op next → law next

section Laws

variable {setting : Setting} {condition : Condition} {law : World → Prop} {pool later : Actors}

private theorem safe_acting {acting : Acting} (isNew : acting = { actor := acting.actor }) :
    Safe (Pool.alone (concurrently setting condition) fun acting => Credible acting.grasp)
      (fun acting => Based acting.actor acting.grasp) (fun _ _ => True) (fun _ _ => True)
      (acting.actor.program setting) acting := by
  have simulates (current : Acting) (grasp : Hand) (op : Op) (response : op.Result)
      (next : Acting) (same : current.actor = acting.actor ∧ current.grasp = grasp)
      (_ : Based acting.actor grasp op)
      (answered : Pool.alone (concurrently setting condition)
        (fun acting => Credible acting.grasp) current op response next) :
      ∃ grasp', inGrasp grasp op response grasp' ∧
        next.actor = acting.actor ∧ next.grasp = grasp' := by
    obtain ⟨credible, rfl⟩ := answered
    obtain ⟨sameActor, rfl⟩ := same
    exact ⟨_, ⟨credible, rfl⟩, sameActor, rfl⟩
  have start : acting.actor = acting.actor ∧ acting.grasp = {} := ⟨rfl, by rw [isNew]⟩
  refine (Safe.simulate simulates (bases_program setting acting.actor) start).mono ?_
    (fun _ _ _ => trivial) fun _ _ _ => trivial
  rintro current op ⟨grasp, ⟨sameActor, rfl⟩, based⟩
  rwa [sameActor]

private theorem kept_inStep (upholds : Upholds setting condition law) :
    Pool.Kept (concurrently setting condition) (fun acting => Credible acting.grasp)
      (fun acting => Based acting.actor acting.grasp) (fun _ _ => True) (fun _ _ => True)
      (fun world all => law world ∧
        ∀ i acting, all i = some acting → Abreast world.log acting.grasp) where
  safe := by
    rintro i acting code ⟨_, isNew, rfl⟩
    exact safe_acting isNew
  spawned := by
    rintro world all i acting code ⟨lawful, abreast⟩ _ ⟨_, isNew, _⟩
    refine ⟨lawful, Pool.forall_notes_update ?_ fun j other _ found => abreast j other found⟩
    rw [isNew]
    exact .nothing rfl
  performed := by
    rintro world all i acting op response next ⟨lawful, abreast⟩ found based ⟨answered, meets⟩
    have own := abreast i acting found
    refine ⟨credible_of_answers own based.grounded answered,
      upholds acting world op response next lawful own based answered meets,
      Pool.forall_notes_update (own.after based.grounded answered) ?_⟩
    intro j other _ found
    obtain ⟨batch, grown⟩ := log_of_answers answered
    rw [grown]
    exact (abreast j other found).grow

/-- Before any thread has been started. -/
theorem InStep.start {world : World} (lawful : law world) :
    InStep setting condition law { world := world } :=
  Pool.sound_of_empty world ⟨lawful, fun _ _ found => absurd found (Option.some_ne_none _).symm⟩

/-- A law that is upheld holds along every interleaving. -/
theorem InStep.run (upholds : Upholds setting condition law)
    (inStep : InStep setting condition law pool)
    (run : Pool.Run (concurrently setting condition) pool later) :
    InStep setting condition law later :=
  Pool.Sound.run (kept_inStep upholds) inStep run

/-- From now on another law, under another condition. -/
theorem InStep.turn {condition' : Condition} {law' : World → Prop}
    (inStep : InStep setting condition law pool) (lawful : law' pool.world) :
    InStep setting condition' law' pool :=
  ⟨⟨lawful, inStep.holds.2⟩, inStep.safe⟩

theorem inStep_of_reachedFrom (reached : ReachedFrom setting condition pool) :
    InStep setting condition (fun _ => True) pool := by
  obtain ⟨start, _, run⟩ := reached
  exact InStep.run (fun _ _ _ _ _ _ _ _ _ _ => trivial) (.start trivial) run

end Laws

/-! ## Executable interleavings -/

/-- A thread is started as an actor, or performs a number of operations. -/
abbrev Entry := Nat × (Actor ⊕ Nat)

def Entry.turns (setting : Setting) :
    Entry → List (Pool.Turn Acting Op Op.Result Exn (Option DriveReport) Unit)
  | (i, .inl actor) => [.start i { actor := actor } (actor.program setting)]
  | (i, .inr count) => List.replicate count (.run i ())

/-- Follow a schedule in an executable world. -/
def interleave (setting : Setting) (oracle : Oracle) (schedule : List Entry) (pool : Actors) :
    Actors :=
  Pool.follow (concurrently setting unconditionally) (fun _ _ _ => true)
    (fun _ _ world op => world.answer setting oracle op) (schedule.flatMap (Entry.turns setting))
    pool

/-- Answers of a store that refuses the appends which do not lead to a wanted
world. -/
def answerOnly (wanted : World → World → Bool) (setting : Setting) (oracle : Oracle)
    (world : World) (op : Op) : op.Result × World :=
  match op with
  | .appendNew instanceId tenantId drafts expectedVersion guarded nextWakeupAt =>
      let answered := world.answer setting oracle
        (.appendNew instanceId tenantId drafts expectedVersion guarded nextWakeupAt)
      if wanted world answered.2 then answered else (.error (.conflictError "refused"), world)
  | op => world.answer setting oracle op

theorem answers_answerOnly (wanted : World → World → Bool) (setting : Setting) (oracle : Oracle)
    (world : World) (op : Op) :
    answers setting world op (answerOnly wanted setting oracle world op).1
      (answerOnly wanted setting oracle world op).2 := by
  cases op with
  | appendNew instanceId tenantId drafts expectedVersion guarded nextWakeupAt =>
    simp only [answerOnly]
    split
    · exact world.answers_answer setting oracle _
    · exact .inl ⟨_, rfl, rfl⟩
  | _ => exact world.answers_answer setting oracle _

/-- Only wanted appends reach the log. -/
theorem log_answerOnly (wanted : World → World → Bool) (setting : Setting) (oracle : Oracle)
    (world : World) (op : Op) : (answerOnly wanted setting oracle world op).2.log = world.log ∨
      wanted world (answerOnly wanted setting oracle world op).2 = true := by
  cases op with
  | appendNew instanceId tenantId drafts expectedVersion guarded nextWakeupAt =>
    simp only [answerOnly]
    split
    · exact .inr ‹_›
    · exact .inl rfl
  | completeLLM call request budget =>
    change (world.noteCall call (oracle.completeLLM call)).2.log = world.log ∨ _
    cases oracle.completeLLM call <;> exact .inl rfl
  | mark mark => cases mark <;> exact .inl rfl
  | _ => exact .inl rfl

/-- Follow a schedule in an executable world that takes wanted appends only. -/
def interleaveOnly (condition : Condition) (wanted : World → World → Bool) (setting : Setting)
    (oracle : Oracle) (schedule : List Entry) (pool : Actors) : Actors :=
  Pool.follow (concurrently setting condition) (fun _ _ _ => true)
    (fun _ _ world op => answerOnly wanted setting oracle world op)
    (schedule.flatMap (Entry.turns setting)) pool

variable (everyone : ∀ actor, setting.admits actor)

include everyone

private theorem admits_of_mem_turns {schedule : List Entry} {i : Nat} {acting : Acting}
    {code : Code (Option DriveReport)}
    (member : .start i acting code ∈ schedule.flatMap (Entry.turns setting)) :
    (concurrently setting condition).admits i acting code := by
  obtain ⟨⟨j, actor | count⟩, _, listed⟩ := List.mem_flatMap.mp member
  · cases List.mem_singleton.mp listed
    exact ⟨everyone actor, rfl, rfl⟩
  · cases List.eq_of_mem_replicate listed

theorem run_interleave (oracle : Oracle) (schedule : List Entry) (pool : Actors) :
    Pool.Run (concurrently setting unconditionally) pool
      (interleave setting oracle schedule pool) := by
  apply Pool.run_follow
  · intro choice acting world op _
    exact ⟨world.answers_answer setting oracle op, trivial⟩
  · intro i acting code member
    exact admits_of_mem_turns everyone member

/-- A condition on wanted appends is met. -/
theorem run_interleaveOnly {wanted : World → World → Bool}
    (met : ∀ acting world op next, next.log = world.log ∨ wanted world next = true → condition
      acting world op next) (oracle : Oracle) (schedule : List Entry) (pool : Actors) :
    Pool.Run (concurrently setting condition) pool
      (interleaveOnly condition wanted setting oracle schedule pool) := by
  apply Pool.run_follow
  · intro choice acting world op _
    exact ⟨answers_answerOnly wanted setting oracle world op,
      met acting world op _ (log_answerOnly wanted setting oracle world op)⟩
  · intro i acting code member
    exact admits_of_mem_turns everyone member

end AgentForge.Refinement
