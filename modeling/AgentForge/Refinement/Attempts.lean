import AgentForge.Engine.PlanLaws
import AgentForge.Protocol.Writers
import AgentForge.Refinement.Writing

/-!
# Running an attempt

While an attempt runs, the journal stands still: the clock moves, model calls
are answered and, at the end of an attempt of a wave, its outcome is noted.
-/

namespace AgentForge.Refinement

open Domain Events Library Engine Protocol

variable {setting : Setting} {care : Care} {world next final : World} {wired : Bool}
  {stepId : String}

/-- An attempt of the step has been at work: the clock has moved and, if it is
wired to a provider, calls of the attempt have been answered. -/
def Worked (setting : Setting) (stepId : String) (wired : Bool) (world next : World) : Prop :=
  ∃ clock calls, next = { world with clock := clock, modelCalls := world.modelCalls ++ calls } ∧
    (setting.monotoneClock → world.clock ≤ clock) ∧
    ∀ record ∈ calls, record.position = world.log.length ∧
      record.call.stepId = stepId ∧ wired = true

theorem Worked.refl (setting : Setting) (stepId : String) (wired : Bool) (world : World) :
    Worked setting stepId wired world world :=
  ⟨world.clock, [], by simp, fun _ => le_rfl, List.forall_mem_nil _⟩

theorem Worked.trans (first : Worked setting stepId wired world next)
    (second : Worked setting stepId wired next final) :
    Worked setting stepId wired world final := by
  obtain ⟨clock, calls, rfl, later, mine⟩ := first
  obtain ⟨clock', calls', rfl, later', mine'⟩ := second
  refine ⟨clock', calls ++ calls', by simp,
    fun monotone => (later monotone).trans (later' monotone), ?_⟩
  intro record member
  rcases List.mem_append.mp member with member | member
  · exact mine record member
  · exact mine' record member

/-- Without a client no calls are answered. -/
theorem Worked.idle (worked : Worked setting stepId wired world next) (unwired : wired = false) :
    Idle setting world next := by
  obtain ⟨clock, calls, rfl, later, mine⟩ := worked
  have none : calls = [] := List.eq_nil_iff_forall_not_mem.mpr fun record member => by
    simp [unwired] at mine
    exact mine record member
  subst none
  exact ⟨clock, world.issued, by simp, later, fun _ member => member⟩

theorem Consistent.worked (consistent : Consistent setting world)
    (worked : Worked setting stepId wired world next) : Consistent setting next := by
  obtain ⟨clock, calls, rfl, _, mine⟩ := worked
  refine { consistent with positions := ?_ }
  intro record member
  rcases List.mem_append.mp member with old | new
  · exact consistent.positions record old
  · exact (mine record new).1.le

theorem Worked.freshCalls_le (worked : Worked setting stepId wired world next) (other : String) :
    freshCalls world other ≤ freshCalls next other := by
  obtain ⟨clock, calls, rfl, _, _⟩ := worked
  unfold freshCalls
  rw [List.countP_append]
  exact Nat.le_add_right _ _

/-- Every call that was answered is one of the step. -/
theorem Worked.length_le (worked : Worked setting stepId wired world next) :
    next.modelCalls.length ≤ world.modelCalls.length + freshCalls next stepId := by
  obtain ⟨clock, calls, rfl, _, mine⟩ := worked
  have all : calls.length = calls.countP fun record =>
      record.position = world.log.length ∧ record.call.stepId = stepId :=
    (List.countP_eq_length.mpr fun record member =>
      decide_eq_true ⟨(mine record member).1, (mine record member).2.1⟩).symm
  unfold freshCalls
  rw [List.countP_append, List.length_append, all]
  exact Nat.add_le_add_left (Nat.le_add_left _ _) _

/-- The model calls of the attempt under way have indices below a bound. -/
def CallsBelow (world : World) (stepId : String) (bound : Nat) : Prop :=
  ∀ record ∈ world.modelCalls, record.position = world.log.length →
    record.call.stepId = stepId → record.call.index < bound

/-- An attempt may call the model: its step is running it, and the calls it has
made so far have smaller indices. -/
def MayCall (world : World) (ctx : StepContext) (state : ContextState) : Prop :=
  ctx.hasLlmClient = true →
    Running world ctx.stepId ctx.attempt ∧ CallsBelow world ctx.stepId state.llmIndex

/-- No more was charged than calls were answered. -/
def ChargesMatched (world next : World) (before after : ContextState) : Prop :=
  after.charges.length + world.modelCalls.length ≤ before.charges.length + next.modelCalls.length

/-- An attempt has asked its context for something. -/
structure Served (setting : Setting) (ctx : StepContext) (world next : World)
    (before after : ContextState) : Prop where
  worked : Worked setting ctx.stepId ctx.hasLlmClient world next
  mayCall : MayCall next ctx after
  matched : ChargesMatched world next before after

/-- A runner that charges nothing by itself. -/
def Uncharging (runner : RunnerCode) : Prop :=
  Program.Yields (fun op => ∀ entry, op ≠ .charge entry) (fun _ => True) runner

/-- The runners leave the charging to the model calls. -/
def Metered (config : Config) : Prop :=
  ∀ agentType runner, config.registry agentType = some runner → ∀ ctx, Uncharging (runner ctx)

section Interpret

variable {ctx : StepContext} {config : Config} {error : Exn → World → Prop}

theorem Worked.of_clock (stepId : String) (wired : Bool) {clock : Time}
    (later : setting.monotoneClock → world.clock ≤ clock) :
    Worked setting stepId wired world { world with clock := clock } :=
  ⟨clock, [], by simp, later, List.forall_mem_nil _⟩

variable (consistent : Consistent setting world) {state : ContextState}

include consistent

theorem keeps_time : KeepsOr setting care error
      (fun _ next => ∃ clock, next = { world with clock := clock } ∧
        (setting.monotoneClock → world.clock ≤ clock)) Code.now world := by
  refine ⟨⟨consistent, trivial⟩, ?_⟩
  rintro time next ⟨later, rfl⟩
  exact ⟨time, rfl, later⟩

private theorem keeps_inTime {α : Type} {post : α → World → Prop} {late : α} {code : Code α}
    (timeoutSeconds : Nat) (expired : post late world)
    (inTime : KeepsOr setting care error post code world) :
    KeepsOr setting care error post
      (do if ← Code.deadlinePassed timeoutSeconds then pure late else code) world := by
  refine ⟨⟨consistent, trivial⟩, ?_⟩
  rintro passed next rfl
  cases passed with
  | true => exact expired
  | false => exact inTime

/-- A model call: replayed, refused, or answered by the provider. -/
private theorem keeps_llm (request : LLMRequest) (mayCall : MayCall world ctx state) :
    KeepsOr setting care error (fun result next => Served setting ctx world next state result.2)
      (ctx.llm config request state) world := by
  unfold StepContext.llm
  dsimp only
  have later : MayCall world ctx { state with llmIndex := state.llmIndex + 1 } := by
    intro wired
    obtain ⟨running, below⟩ := mayCall wired
    exact ⟨running, fun record member now mine =>
      (below record member now mine).trans (Nat.lt_succ_self _)⟩
  cases ctx.replayLlm[state.llmIndex]? with
  | some recording => exact ⟨.refl setting _ _ world, later, le_rfl⟩
  | none =>
    cases wired : ctx.hasLlmClient with
    | false => exact ⟨.refl setting _ _ world, later, le_rfl⟩
    | true =>
      obtain ⟨running, below⟩ := mayCall wired
      refine ⟨⟨consistent, running, below⟩, ?_⟩
      intro completion next answered
      cases completion with
      | error failure =>
        obtain rfl : next = world := answered
        exact ⟨.refl setting _ _ next, later, le_rfl⟩
      | ok completion =>
        obtain rfl : next = { world with modelCalls := world.modelCalls ++
          [⟨⟨ctx.stepId, ctx.attempt, state.llmIndex⟩, world.log.length⟩] } := answered
        constructor
        case worked =>
          refine ⟨world.clock, _, rfl, fun _ => le_rfl, ?_⟩
          intro record member
          rw [List.mem_singleton] at member
          subst member
          exact ⟨rfl, rfl, wired⟩
        case mayCall =>
          refine fun _ => ⟨running, ?_⟩
          intro record member now mine
          rcases List.mem_append.mp member with old | new
          · exact (below record old now mine).trans (Nat.lt_succ_self _)
          · rw [List.mem_singleton] at new
            subst new
            exact Nat.lt_succ_self _
        case matched =>
          simp only [ChargesMatched, ContextState.recordCompletion, List.length_append,
            List.length_singleton]
          omega

private theorem keeps_executeEffect (effectName : String) (params : JsonDict) (provider : String)
    (mayCall : MayCall world ctx state) :
    KeepsOr setting care error (fun result next => Served setting ctx world next state result.2)
      (ctx.executeEffect effectName params provider state) world := by
  unfold StepContext.executeEffect
  cases ctx.hasGuard with
  | false => exact ⟨.refl setting _ _ world, mayCall, le_rfl⟩
  | true =>
    refine ⟨⟨consistent, trivial⟩, ?_⟩
    intro outcome next answered
    obtain rfl : next = world := answered
    cases outcome with
    | error failure => exact ⟨.refl setting _ _ next, mayCall, le_rfl⟩
    | ok outcome => exact ⟨.refl setting _ _ next, mayCall, le_rfl⟩

/-- Whatever a runner does, the journal stands still. -/
theorem keeps_interpret (timeoutSeconds : Nat) (runner : RunnerCode)
    (mayCall : MayCall world ctx state) :
    KeepsOr setting care error
      (fun result next => Worked setting ctx.stepId ctx.hasLlmClient world next ∧
        (Uncharging runner → ChargesMatched world next state result.2))
      (interpret config ctx timeoutSeconds runner state) world := by
  induction runner generalizing state world with
  | done result => exact ⟨.refl setting _ _ world, fun _ => le_rfl⟩
  | raise failure => exact ⟨.refl setting _ _ world, fun _ => le_rfl⟩
  | perform op rest ih =>
    have onward (response : op.Result) {middle : World} {state' : ContextState}
        (worked : Worked setting ctx.stepId ctx.hasLlmClient world middle)
        (mayCall' : MayCall middle ctx state')
        (matched : Uncharging (.perform op rest) → ChargesMatched world middle state state') :
        KeepsOr setting care error
          (fun result next => Worked setting ctx.stepId ctx.hasLlmClient world next ∧
            (Uncharging (.perform op rest) → ChargesMatched world next state result.2))
          (interpret config ctx timeoutSeconds (rest response) state') middle := by
      refine (ih response (consistent.worked worked) mayCall').imp ?_
      rintro result next ⟨more, matched'⟩
      refine ⟨worked.trans more, fun uncharging => ?_⟩
      have before := matched uncharging
      have after := matched' (uncharging.2 response PUnit.unit trivial)
      unfold ChargesMatched at before after ⊢
      omega
    have still := Worked.refl setting ctx.stepId ctx.hasLlmClient world
    cases op with
    | llm request =>
      apply keeps_inTime consistent timeoutSeconds ⟨still, fun _ => le_rfl⟩
      refine (keeps_llm consistent request mayCall).bind ?_
      exact fun told _ served => onward told.1 served.worked served.mayCall fun _ => served.matched
    | charge entry =>
      exact onward () still mayCall fun uncharging => absurd rfl (uncharging.1 entry)
    | executeEffect effectName params provider =>
      apply keeps_inTime consistent timeoutSeconds ⟨still, fun _ => le_rfl⟩
      refine (keeps_executeEffect consistent effectName params provider mayCall).bind ?_
      exact fun told _ served => onward told.1 served.worked served.mayCall fun _ => served.matched
    | requestReview review => exact onward () still mayCall fun _ => le_rfl
    | now =>
      refine ⟨⟨consistent, trivial⟩, ?_⟩
      rintro time middle ⟨later, rfl⟩
      exact onward time (.of_clock ctx.stepId ctx.hasLlmClient later) mayCall fun _ => le_rfl
    | external query =>
      apply keeps_inTime consistent timeoutSeconds ⟨still, fun _ => le_rfl⟩
      refine ⟨⟨consistent, trivial⟩, ?_⟩
      rintro response later rfl
      exact onward response still mayCall fun _ => le_rfl

omit consistent in
private theorem keeps_outcomeOf (timeoutSeconds : Nat) (ended : Engine.Ended) (state : ContextState)
    (fails : ∀ failure, error failure world) :
    KeepsOr setting care error (fun outcome next => next = world ∧ outcome.charges = state.charges)
      (outcomeOf timeoutSeconds ended state) world := by
  unfold outcomeOf
  cases ended with
  | timedOut => exact ⟨rfl, rfl⟩
  | returned result => exact ⟨rfl, rfl⟩
  | raised failure =>
    dsimp only
    cases failure.exnClass with
    | cancelled => exact fails failure
    | _ => exact ⟨rfl, rfl⟩

theorem keeps_runAttempt (timeoutSeconds : Nat) (mayCall : MayCall world ctx {})
    (fails : ∀ failure next, Worked setting ctx.stepId ctx.hasLlmClient world next → error failure
      next) :
    KeepsOr setting care error
      (fun outcome next => Worked setting ctx.stepId ctx.hasLlmClient world next ∧
        (Metered config →
          outcome.charges.length + world.modelCalls.length ≤ next.modelCalls.length))
      (runAttempt config ctx timeoutSeconds) world := by
  unfold runAttempt
  cases registered : config.registry ctx.agentType with
  | none => exact fails _ world (.refl setting _ _ world)
  | some runner =>
    refine (keeps_interpret consistent timeoutSeconds (runner ctx) mayCall).bind ?_
    rintro ⟨ended, state⟩ middle ⟨worked, matched⟩
    refine (keeps_outcomeOf timeoutSeconds ended state fun failure =>
      fails failure middle worked).imp ?_
    rintro outcome final ⟨rfl, same⟩
    refine ⟨worked, fun metered => ?_⟩
    have bound := matched (metered _ runner registered ctx)
    rw [same]
    simpa [ChargesMatched] using bound

end Interpret

/-! ## The attempts of a wave -/

/-- What the history notes of a finished attempt. -/
def recordOf (result : AttemptResult) : AttemptRecord :=
  ⟨result.stepId, result.attempt, result.outcome⟩

/-- The result belongs to the candidate. -/
def ResultOf (definition : WorkflowDefinition) (candidate : String × Nat)
    (result : AttemptResult) : Prop :=
  (result.stepId, result.attempt) = candidate ∧ result.step ∈ definition.steps ∧
    result.step.stepId = result.stepId

/-- Some attempts of a wave have ended since its start, with these outcomes. -/
def InWave (setting : Setting) (care : Care) (start : World) (ended : List (String × Nat))
    (outcomes : List (Except Exn AttemptResult)) (world : World) : Prop :=
  ∃ clock attempts calls,
    world = { start with
      clock := clock
      attempts := start.attempts ++ attempts
      modelCalls := start.modelCalls ++ calls } ∧
    (setting.monotoneClock → start.clock ≤ clock) ∧
    (∀ record ∈ calls, record.position = start.log.length ∧
      record.call.stepId ∈ ended.map Prod.fst) ∧
    (∀ record ∈ attempts, ∃ result, .ok result ∈ outcomes ∧ record = recordOf result) ∧
    (care.charges → ∀ result, .ok result ∈ outcomes →
      result.outcome.charges.length ≤ freshCalls world result.stepId) ∧
    List.Forall₂ (fun candidate outcome => ∀ result, outcome = .ok result →
      ResultOf setting.definition candidate result) ended outcomes

theorem exists_of_forall₂ {α β : Type} {related : α → β → Prop} {first : List α}
    {second : List β} (all : List.Forall₂ related first second) {value : β}
    (member : value ∈ second) : ∃ other ∈ first, related other value := by
  induction all with
  | nil => cases member
  | cons head _ ih =>
    rcases List.mem_cons.mp member with rfl | tail
    · exact ⟨_, List.mem_cons_self, head⟩
    · obtain ⟨other, otherMember, holds⟩ := ih tail
      exact ⟨other, List.mem_cons_of_mem _ otherMember, holds⟩

namespace InWave

variable {start : World} {ended : List (String × Nat)}
  {outcomes : List (Except Exn AttemptResult)} {candidate : String × Nat}

theorem initial (setting : Setting) (care : Care) (start : World) :
    InWave setting care start [] [] start :=
  ⟨start.clock, [], [], by simp, fun _ => le_rfl, List.forall_mem_nil _, List.forall_mem_nil _,
    fun _ _ absent => absurd absent List.not_mem_nil, .nil⟩

variable (inWave : InWave setting care start ended outcomes world)

include inWave

/-- An attempt of the next candidate has been at work and has come to its
outcome, of which more was noted. -/
theorem concat {wired : Bool} {outcome : Except Exn AttemptResult} {more : List AttemptRecord}
    (worked : Worked setting candidate.1 wired world next)
    (moreNoted : ∀ record ∈ more, ∃ result, outcome = .ok result ∧ record = recordOf result)
    (ends : ∀ result, outcome = .ok result → ResultOf setting.definition candidate result ∧
      (care.charges →
        result.outcome.charges.length + world.modelCalls.length ≤ next.modelCalls.length)) :
    InWave setting care start (ended ++ [candidate]) (outcomes ++ [outcome])
      { next with attempts := next.attempts ++ more } := by
  have fresh := worked.freshCalls_le
  have charged {result : AttemptResult} (ended : outcome = .ok result) (cares : care.charges) :
      result.outcome.charges.length ≤ freshCalls next result.stepId := by
    obtain ⟨⟨rfl, _⟩, bound⟩ := ends result ended
    have answered := worked.length_le
    have charged := bound cares
    dsimp only at answered
    omega
  obtain ⟨clock, attempts, calls, rfl, later, mine, noted, billed, results⟩ := inWave
  obtain ⟨clock', calls', rfl, later', mine'⟩ := worked
  refine ⟨clock', attempts ++ more, calls ++ calls', by simp,
    fun monotone => (later monotone).trans (later' monotone), ?_, ?_, ?_, ?_⟩
  · intro record member
    rcases List.mem_append.mp member with old | new
    · exact ⟨(mine record old).1, by simp [(mine record old).2]⟩
    · exact ⟨(mine' record new).1, by simp [(mine' record new).2.1]⟩
  · intro record member
    rcases List.mem_append.mp member with old | new
    · obtain ⟨earlier, listed, same⟩ := noted record old
      exact ⟨earlier, List.mem_append_left _ listed, same⟩
    · obtain ⟨result, rfl, same⟩ := moreNoted record new
      exact ⟨result, List.mem_append_right _ (List.mem_singleton_self _), same⟩
  · intro cares result listed
    rcases List.mem_append.mp listed with old | new
    · exact (billed cares result old).trans (fresh _)
    · exact charged (List.mem_singleton.mp new).symm cares
  · exact List.rel_append results (.cons (fun result same => (ends result same).1) .nil)

/-- An attempt of the next candidate has been at work and has failed to end. -/
theorem error {wired : Bool} (worked : Worked setting candidate.1 wired world next)
    (failure : Exn) :
    InWave setting care start (ended ++ [candidate]) (outcomes ++ [.error failure]) next := by
  have ended := inWave.concat worked (List.forall_mem_nil _)
    (fun result same => by cases (same : Except.error failure = .ok result))
  rw [List.append_nil] at ended
  exact ended

/-- The world stays consistent during a wave. -/
theorem consistent (startConsistent : Consistent setting start)
    (running : ∀ candidate ∈ ended, Running start candidate.1 candidate.2) :
    Consistent setting world := by
  obtain ⟨clock, attempts, calls, rfl, _, mine, noted, _, results⟩ := inWave
  refine { startConsistent with attempts := ?_, positions := ?_ }
  · intro noRequeue record member
    rcases List.mem_append.mp member with old | new
    · exact startConsistent.attempts noRequeue record old
    · obtain ⟨result, listed, rfl⟩ := noted record new
      obtain ⟨candidate, candidateMember, resultOf⟩ :=
        exists_of_forall₂ results listed
      obtain ⟨rfl, _, _⟩ := resultOf result rfl
      exact (running _ candidateMember).2.ge
  · intro record member
    rcases List.mem_append.mp member with old | new
    · exact startConsistent.positions record old
    · exact (mine record new).1.le

end InWave

section Wave

variable {start : World} {config : Config} {inst : WorkflowInstance}
  {budget : Option BudgetView} {dispatch : List (String × Nat)}

/-- One attempt of a wave. -/
private theorem keeps_runOne (metered : care.charges → Metered config) {ended : List (String × Nat)}
    {outcomes : List (Except Exn AttemptResult)} {candidate : String × Nat}
    (inWave : InWave setting care start ended outcomes world)
    (consistent : Consistent setting world) (running : Running world candidate.1 candidate.2)
    (below : CallsBelow world candidate.1 0) :
    KeepsOr setting care (fun failure next =>
        InWave setting care start (ended ++ [candidate]) (outcomes ++ [.error failure]) next)
      (fun result next =>
        InWave setting care start (ended ++ [candidate]) (outcomes ++ [.ok result]) next)
      (runOne config setting.definition inst budget candidate) world := by
  unfold runOne
  have failed (failure : Exn) : InWave setting care start (ended ++ [candidate])
      (outcomes ++ [.error failure]) world :=
    inWave.error (.refl setting _ config.hasLlm world) failure
  refine keeps_lift_bind failed ?_
  intro step stepOk
  refine keeps_lift_bind failed ?_
  intro state _
  refine (keeps_time consistent).bind ?_
  rintro _ _ ⟨clock, rfl, later⟩
  have worked := Worked.of_clock candidate.1 config.hasLlm later
  have timedConsistent := consistent.worked worked
  refine (keeps_runAttempt timedConsistent step.timeoutSeconds ?_ ?_).bind ?_
  · exact fun _ => ⟨running, below⟩
  · exact fun failure _ more => inWave.error (worked.trans more) failure
  · rintro outcome ran ⟨more, charged⟩
    refine (keeps_time (timedConsistent.worked more)).bind ?_
    rintro _ _ ⟨clock', rfl, later'⟩
    have whole := (worked.trans more).trans (Worked.of_clock candidate.1 config.hasLlm later')
    refine ⟨⟨consistent.worked whole, ?_⟩, ?_⟩
    · obtain ⟨_, _, rfl, _, _⟩ := more
      exact running
    · rintro _ _ rfl
      apply inWave.concat whole
      · intro record member
        exact ⟨_, rfl, List.mem_singleton.mp member⟩
      · rintro _ ⟨⟩
        exact ⟨⟨rfl, stepOf_eq_ok stepOk⟩, fun cares => charged (metered cares)⟩

/-- All attempts of a wave. -/
theorem keeps_gather (metered : care.charges → Metered config)
    (startConsistent : Consistent setting start)
    (nodup : (dispatch.map Prod.fst).Nodup)
    (running : ∀ candidate ∈ dispatch, Running start candidate.1 candidate.2)
    (earlier : ∀ record ∈ start.modelCalls, record.position < start.log.length) : Keeps setting care
      (fun results next => InWave setting care start dispatch (results.map .ok) next)
      (Program.gather (runOne config setting.definition inst budget) dispatch) start := by
  apply Program.safe_gather (InWave setting care start) (.initial setting care start)
  · intro ended candidate after split outcomes world inWave
    have consistent := inWave.consistent startConsistent fun other member =>
      running other (by simp [split, member])
    have notEnded := not_mem_before_of_split nodup split
    apply keeps_runOne metered inWave consistent
    · obtain ⟨_, _, _, rfl, _⟩ := inWave
      exact running candidate (by simp [split])
    · obtain ⟨_, _, calls, rfl, _, mine, _⟩ := inWave
      intro record member now same
      rcases List.mem_append.mp member with old | new
      · exact absurd now (earlier record old).ne
      · exact absurd (same ▸ (mine record new).2) notEnded
  · intro outcomes failure world inWave _
    exact inWave.consistent startConsistent running

end Wave

end AgentForge.Refinement
