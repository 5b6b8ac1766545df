import AgentForge.Engine.Execution
import AgentForge.Engine.Told

/-!
# What attempts did and what the log says

A drive enters into the log every charge and every side effect of the attempts
of its steps, however they ended.  Of the attempts of compensation handlers it
enters nothing.
-/

namespace AgentForge.Guarantees

open Domain Events Library Engine Store
open Program

/-! ## Entries and deeds -/

/-- The charge that an event records. -/
def chargeEntry : Payload → Option (Option String × CostEntry)
  | .costCharged stepId amountUsd model tokensInput tokensOutput => some (stepId,
      { amountUsd := amountUsd, model := model, tokensInput := tokensInput,
        tokensOutput := tokensOutput })
  | _ => none

/-- The charges that events record. -/
def chargesIn (payloads : List Payload) : List (Option String × CostEntry) :=
  payloads.filterMap chargeEntry

/-- The keys of the executed side effects that events record. -/
def executedIn (payloads : List Payload) : List String :=
  payloads.filterMap executedEntry

/-- The charges made through a context. -/
def chargesMade (deed : Deed) : List (Option String × CostEntry) :=
  deed.ledger.charges.map fun entry => (some deed.stepId, entry)

/-- The keys of the side effects that returned normally. -/
def effectsMade (deed : Deed) : List String :=
  deed.ledger.effects.map EffectOutcome.idempotencyKey

/-- The deeds of the attempts of steps. -/
def forward (deeds : List Deed) : List Deed :=
  deeds.filter fun deed => !deed.compensating

/-- What the log has gained are the entries of the attempts of steps. -/
structure Gained (start : List Event) (deeds : List Deed) (world : World) : Prop where
  gained : ∃ batch, world.log = start ++ batch ∧
    chargesIn (batch.map Event.payload) = (forward deeds).flatMap chargesMade ∧
    executedIn (batch.map Event.payload) = (forward deeds).flatMap effectsMade

section Entries

variable {setting : Setting} {start : List Event} {deeds : List Deed} {world next : World}

theorem chargesIn_of_clerical {payloads : List Payload}
    (all : ∀ payload ∈ payloads, clerical payload) :
    chargesIn payloads = [] ∧ executedIn payloads = [] := by
  constructor <;>
  · apply List.filterMap_eq_nil_iff.mpr
    intro payload member
    have isClerical := all payload member
    cases payload with
    | costCharged | sideEffectExecuted => exact isClerical.elim
    | _ => rfl

variable (entered : Gained start deeds world)

include entered

theorem Gained.nothing : Gained start (deeds ++ []) world := by
  rwa [List.append_nil]

theorem Gained.same (log : next.log = world.log) : Gained start deeds next :=
  ⟨by rw [log]; exact entered.gained⟩

/-- A batch that enters what some attempts have done. -/
theorem Gained.append {batch : List Event} {more : List Deed} (log : next.log = world.log ++ batch)
    (charges : chargesIn (batch.map Event.payload) = (forward more).flatMap chargesMade)
    (effects : executedIn (batch.map Event.payload) = (forward more).flatMap effectsMade) :
    Gained start (deeds ++ more) next := by
  obtain ⟨before, grown, chargesBefore, effectsBefore⟩ := entered.gained
  refine ⟨before ++ batch, by rw [log, grown, List.append_assoc], ?_, ?_⟩
  · rw [List.map_append, chargesIn, List.filterMap_append, forward, List.filter_append,
      List.flatMap_append]
    exact congrArg₂ (· ++ ·) chargesBefore charges
  · rw [List.map_append, executedIn, List.filterMap_append, forward, List.filter_append,
      List.flatMap_append]
    exact congrArg₂ (· ++ ·) effectsBefore effects

theorem Gained.clerical {op : Op} {response : op.Result} (isClerical : op.clericalOnly)
    (answered : answers setting world op response next) : Gained start deeds next := by
  cases logChange_of_answers answered with
  | same sameLog => exact entered.same sameLog
  | @committed instanceId tenantId drafts expectedVersion guarded nextWakeupAt _ committed =>
    obtain ⟨_, _, _, _, _, rfl⟩ := commit_eq_ok committed
    have none := chargesIn_of_clerical (List.forall_mem_map.mpr isClerical)
    rw [← payload_resequence expectedVersion] at none
    rw [← List.append_nil deeds]
    exact entered.append rfl none.1 none.2

/-- Code and what holds when it returns. -/
abbrev Enters {α : Type} (setting : Setting) (post : α → World → Prop) (code : Code α)
    (world : World) : Prop :=
  Safe (answers setting) (fun _ _ => True) post (fun _ _ => True) code world

omit entered

/-- Code that appends clerical events only enters nothing. -/
theorem enters_clerical {α : Type} {returns : α → Prop} {code : Code α}
    (yields : Yields Op.clericalOnly returns code) (entered : Gained start deeds world) :
    Enters setting (fun value next => returns value ∧ Gained start deeds next) code world :=
  yields.safe (fun _ _ entered isClerical =>
    ⟨trivial, fun _ _ answered => entered.clerical isClerical answered⟩) (fun _ _ _ => trivial)
    entered

/-- What told code has done is entered. -/
abbrev Tells {α : Type} (setting : Setting) (start : List Event) (deeds : List Deed)
    (code : Code (α × List Deed)) (world : World) : Prop :=
  Enters setting (fun told next => Gained start (deeds ++ told.2) next) code world

theorem tells_untold {α : Type} {code : Code α} (isClerical : Clerical code)
    (entered : Gained start deeds world) : Tells setting start deeds (untold code) world := by
  exact (enters_clerical isClerical entered).map fun _ _ ended => ended.2.nothing

end Entries

/-! ## Attempts -/

section Attempts

variable {setting : Setting} {config : Config} {definition : WorkflowDefinition}
  {inst : WorkflowInstance} {start : List Event} {deeds : List Deed} {world : World}
  {told : List (AttemptResult × Deed)}

theorem yields_toldAttempt (ctx : StepContext) (timeoutSeconds : Nat) :
    Yields Op.clericalOnly (fun told => HandsOver told.1 told.2)
      (toldAttempt config ctx timeoutSeconds) := by
  unfold toldAttempt
  cases config.registry ctx.agentType with
  | none => trivial
  | some runner =>
    refine Safe.bind ((yields_interpret timeoutSeconds
      (yields_of_forall (fun _ _ => trivial) (runner ctx)) {}).mono
      (fun op allowed => @Op.clericalOnly_of_attempts ctx op allowed.1)
      fun _ holds => holds) ?_
    rintro ⟨ended, state⟩ _ _
    exact Safe.bind (Yields.mono (yields_outcomeOf timeoutSeconds ended state)
      (fun _ => Op.clericalOnly_of_atDesk) fun _ handed => handed) fun _ _ handed => handed

/-- The deed of an attempt is what its result hands over. -/
def Matches (told : AttemptResult × Deed) : Prop :=
  told.1.stepId = told.2.stepId ∧ told.2.compensating = false ∧
    HandsOver told.1.outcome told.2.ledger

theorem yields_toldOne (budget : Option BudgetView) (candidate : String × Nat) :
    Yields Op.clericalOnly Matches (toldOne config definition inst budget candidate) := by
  refine yields_lift_bind fun step _ => ?_
  refine yields_lift_bind fun state _ => ?_
  refine Safe.bind (yields_call trivial) fun _ _ _ => ?_
  refine Safe.bind (yields_toldAttempt _ step.timeoutSeconds) fun told _ handed => ?_
  refine Safe.bind (yields_call trivial) fun _ _ _ => ?_
  exact Safe.bind (yields_call trivial) fun _ _ _ => ⟨rfl, rfl, handed⟩

theorem yields_toldGather (budget : Option BudgetView) (dispatch : List (String × Nat)) :
    Yields Op.clericalOnly (fun told => ∀ one ∈ told, Matches one)
      (gather (toldOne config definition inst budget) dispatch) := by
  refine Safe.imp (safe_gather (fun _ outcomes _ => ∀ one, .ok one ∈ outcomes → Matches one)
    (fun _ member => absurd member List.not_mem_nil) ?_ fun _ _ _ _ _ => trivial) ?_
  · intro before candidate after _ outcomes _ all
    refine Safe.mono (yields_toldOne budget candidate) (fun _ _ holds => holds) ?_ ?_
    · intro told _ holds one member
      rcases List.mem_append.mp member with old | new
      · exact all one old
      · cases List.mem_singleton.mp new
        exact holds
    · intro failure _ _ one member
      rcases List.mem_append.mp member with old | new
      · exact all one old
      · cases List.mem_singleton.mp new
  · intro told _ all one member
    exact all one (List.mem_map_of_mem member)

theorem chargesIn_resultPayloads (result : AttemptResult) : chargesIn (resultPayloads result) =
      result.outcome.charges.map fun entry => (some result.stepId, entry) := by
  have effects (effects : List EffectOutcome) :
      (effects.flatMap (effectPayloads result.stepId)).filterMap chargeEntry = [] := by
    rw [List.filterMap_flatMap, List.flatMap_eq_nil_iff]
    intro effect _
    unfold effectPayloads
    split <;> rfl
  have ended : chargeEntry (outcomePayload result) = none := by
    unfold outcomePayload
    split <;> rfl
  have recorded (recordings : List LLMRecording) : recordings.filterMap
      (chargeEntry ∘ .llmCallRecorded result.stepId result.attempt) = [] :=
    List.filterMap_eq_nil_iff.mpr fun _ _ => rfl
  simp only [chargesIn, resultPayloads, List.filterMap_append, List.filterMap_map, recorded,
    effects, List.filterMap_cons, ended, List.filterMap_nil, List.append_nil, List.nil_append]
  exact congrFun (List.filterMap_eq_map (f := fun entry : CostEntry =>
    (some result.stepId, entry))) result.outcome.charges

theorem executedIn_resultPayloads (result : AttemptResult) : executedIn (resultPayloads result) =
      result.outcome.effects.map EffectOutcome.idempotencyKey := by
  have effect (effect : EffectOutcome) :
      (effectPayloads result.stepId effect).filterMap executedEntry = [effect.idempotencyKey] := by
    unfold effectPayloads
    split <;> rfl
  have ended : executedEntry (outcomePayload result) = none := by
    unfold outcomePayload
    split <;> rfl
  have recorded (recordings : List LLMRecording) : recordings.filterMap
      (executedEntry ∘ .llmCallRecorded result.stepId result.attempt) = [] :=
    List.filterMap_eq_nil_iff.mpr fun _ _ => rfl
  have charged (charges : List CostEntry) : charges.filterMap
      (executedEntry ∘ fun charge => .costCharged (some result.stepId) charge.amountUsd
        charge.model charge.tokensInput charge.tokensOutput) = [] :=
    List.filterMap_eq_nil_iff.mpr fun _ _ => rfl
  simp only [executedIn, resultPayloads, List.filterMap_append, List.filterMap_map,
    List.filterMap_flatMap, recorded, charged, effect, List.filterMap_cons, ended,
    List.filterMap_nil, List.append_nil, List.nil_append]
  exact List.flatMap_pure_eq_map _ _

/-- The batch that ends a wave enters what its attempts did. -/
theorem entries_of_matches (all : ∀ one ∈ told, Matches one) :
    chargesIn ((told.map Prod.fst).flatMap resultPayloads) =
        (forward (told.map Prod.snd)).flatMap chargesMade ∧
      executedIn ((told.map Prod.fst).flatMap resultPayloads) =
        (forward (told.map Prod.snd)).flatMap effectsMade := by
  have kept : forward (told.map Prod.snd) = told.map Prod.snd := by
    apply List.filter_eq_self.mpr
    intro deed member
    obtain ⟨one, listed, rfl⟩ := List.mem_map.mp member
    rw [(all one listed).2.1]
    rfl
  rw [kept, chargesIn, executedIn, List.filterMap_flatMap, List.filterMap_flatMap,
    List.flatMap_map, List.flatMap_map, List.flatMap_map, List.flatMap_map]
  constructor
  · apply List.flatMap_congr
    intro one member
    obtain ⟨sameStep, _, charges, _⟩ := all one member
    refine (chargesIn_resultPayloads one.1).trans ?_
    rw [charges, sameStep]
    rfl
  · apply List.flatMap_congr
    intro one member
    obtain ⟨_, _, _, effects⟩ := all one member
    refine (executedIn_resultPayloads one.1).trans ?_
    rw [effects]
    rfl

/-- The append that ends a wave. -/
theorem enters_results {drafts : List Event} (all : ∀ one ∈ told, Matches one)
    (drafted : DraftsOf inst ((told.map Prod.fst).flatMap resultPayloads) drafts)
    (entered : Gained start deeds world) :
    Enters setting (fun _ next => Gained start (deeds ++ told.map Prod.snd) next)
      (append definition inst drafts) world := by
  have entries := entries_of_matches all
  unfold append
  by_cases empty : drafts.isEmpty = true
  · rw [if_pos empty]
    rw [← drafted.1, List.isEmpty_iff.mp empty] at entries
    exact entered.append (List.append_nil _).symm entries.1 entries.2
  · rw [if_neg empty]
    refine ⟨trivial, ?_⟩
    rintro (failure | appended) next answered
    · trivial
    · have grown : Gained start (deeds ++ told.map Prod.snd) next := by
        rcases answered with ⟨_, failed, _⟩ | ⟨committed, _⟩
        · cases failed
        · obtain ⟨_, _, _, _, _, rfl⟩ := commit_eq_ok committed
          rw [← drafted.1, ← payload_resequence inst.version drafts] at entries
          exact entered.append rfl entries.1 entries.2
      change Enters setting _ (lift (foldOnto definition inst appended.2)) next
      cases foldOnto definition inst appended.2 with
      | error failure => trivial
      | ok folded => exact grown

variable (entered : Gained start deeds world) {lease : Lease}

include entered

theorem tells_toldWave {dispatch : List (String × Nat)} :
    Tells setting start deeds (toldWave config definition lease inst dispatch) world := by
  refine (enters_clerical (atDesk_startWave lease.workerId dispatch).clerical entered).bind_bind ?_
  rintro inst next ⟨_, entered⟩
  refine (enters_clerical atDesk_budgetView.clerical entered).bind ?_
  rintro budget next ⟨_, entered⟩
  refine (enters_clerical (yields_toldGather budget dispatch) entered).bind ?_
  rintro told next ⟨all, entered⟩
  have settles : Enters setting (fun _ next => Gained start (deeds ++ told.map Prod.snd) next)
      (settleWave config definition inst (told.map Prod.fst)) next := by
    rw [settleWave_eq]
    refine (enters_clerical ((atDesk_drafting (yields_drafts inst _)).mono
      (fun _ => Op.clericalOnly_of_atDesk) fun _ drafted => drafted) entered).bind ?_
    rintro drafts next ⟨drafted, entered⟩
    refine (enters_results all drafted entered).bind fun inst next entered => ?_
    exact (enters_clerical (atDesk_closeWave _).clerical entered).imp fun _ _ ended => ended.2
  exact settles.bind fun _ _ entered => entered

/-! ## Rollbacks -/

theorem Gained.compensated {deed : Deed} (compensating : deed.compensating = true) :
    Gained start (deeds ++ [deed]) world :=
  entered.append (List.append_nil _).symm (by simp [forward, compensating, chargesIn])
    (by simp [forward, compensating, executedIn])

omit entered in
theorem yields_toldCompensation (step : WorkflowStep) :
    Yields Op.clericalOnly (fun told => told.2.compensating = true)
      (toldCompensation config inst step) := by
  refine yields_lift_bind fun state _ => ?_
  exact Safe.bind (yields_toldAttempt _ step.timeoutSeconds) fun _ _ _ => rfl

theorem tells_toldCompensations {steps : List WorkflowStep} :
    Tells setting start deeds (toldCompensations config inst steps) world := by
  induction steps generalizing deeds world with
  | nil => exact entered.nothing
  | cons step rest ih =>
    have ran : Safe (answers setting) (fun _ _ => True)
        (fun told next => told.2.compensating = true ∧ Gained start deeds next)
        (fun _ next => Gained start deeds next) (toldCompensation config inst step) world :=
      (yields_toldCompensation step).safe (fun _ _ entered isClerical =>
        ⟨trivial, fun _ _ answered => entered.clerical isClerical answered⟩)
        (fun _ _ entered => entered) entered
    refine ran.settle.bind ?_
    rintro (failure | ⟨outcome, deed⟩) next holds
    · change Enters setting _ (ite _ _ _) _
      split
      · exact Gained.nothing holds
      · trivial
    · have more := holds.2.compensated holds.1
      cases outcome with
      | success success =>
        refine (ih more).bind fun told next entered => ?_
        rw [List.append_assoc] at entered
        exact entered
      | failure failure => exact more

theorem tells_toldRollback {reason : String} :
    Tells setting start deeds (toldRollback config definition inst reason) world := by
  refine (enters_clerical concludes_undoSideEffects.clerical entered).bind ?_
  rintro (detail | undone) next ⟨_, entered⟩
  · exact tells_untold (concludes_escalate _ _ _ _).clerical entered
  · refine safe_lift_bind (fun steps _ => ?_) fun _ _ => trivial
    refine (tells_toldCompensations entered).bind ?_
    rintro ⟨failed, more⟩ next entered
    cases failed with
    | some detail =>
      exact (enters_clerical (concludes_escalate _ _ _ _).clerical entered).map fun _ _ ended =>
        ended.2
    | none =>
      exact (enters_clerical (concludes_rolledBack undone steps reason _).clerical entered).map
        fun _ _ ended => ended.2

/-! ## Drives -/

theorem tells_toldFailurePolicy {failure : String × String} :
    Tells setting start deeds (toldFailurePolicy config definition inst failure) world := by
  unfold toldFailurePolicy
  split
  · have marked : Clerical (Code.mark (.policyApplied failure.1)) := yields_call trivial
    refine (enters_clerical marked entered).bind ?_
    rintro _ next ⟨_, entered⟩
    exact tells_toldRollback entered
  · exact tells_untold (concludes_applyFailurePolicy failure).clerical entered

theorem tells_toldPlan {plan : Plan} :
    Tells setting start deeds (toldPlan config definition lease inst plan) world := by
  unfold toldPlan
  split
  · next held =>
    refine tells_untold (clerical_followPlan fun dispatches => ?_) entered
    simp [dispatches.affordable, dispatches.approved] at held
  · cases failed : plan.terminalFailure with
    | some failure => exact (tells_toldFailurePolicy entered).bind fun _ _ entered => entered
    | none =>
      dsimp only
      split
      · next idle =>
        refine tells_untold (clerical_followPlan fun dispatches => ?_) entered
        exact dispatches.busy (List.isEmpty_iff.mp idle)
      · exact (tells_toldWave entered).bind fun _ _ entered => entered

theorem tells_toldTurn :
    Tells setting start deeds (toldTurn config definition lease inst) world := by
  unfold toldTurn
  split
  · refine (enters_clerical atDesk_now.clerical entered).bind ?_
    rintro now next ⟨_, entered⟩
    exact safe_lift_bind (fun plan _ => tells_toldPlan entered) fun _ _ => trivial
  · next elsewhere => exact tells_untold (atDesk_runTurn elsewhere).clerical entered

theorem tells_toldLoop {fuel : Nat} :
    Tells setting start deeds (toldLoop config definition lease fuel inst) world := by
  induction fuel generalizing inst deeds world with
  | zero => trivial
  | succ fuel ih =>
    refine (tells_toldTurn entered).bind ?_
    rintro ⟨turn, done⟩ next entered
    cases turn with
    | report report => exact entered
    | again inst =>
      refine (ih entered).bind fun told next entered => ?_
      rw [List.append_assoc] at entered
      exact entered

omit entered

/-- A drive that does not lose its lease enters what its attempts did. -/
theorem enters_toldDrive : Enters setting (fun told next => told.1.result ≠ .leaseLost →
      Gained world.log told.2 next) (toldDrive config lease) world := by
  have entered : Gained world.log [] world := ⟨[], (List.append_nil _).symm, rfl, rfl⟩
  have read (op : Op) (isClerical : op.clericalOnly) : Clerical (call op : Code op.Result) :=
    yields_call isClerical
  refine (enters_clerical (read (.getDefinition _ _ _) trivial) entered).bind ?_
  rintro (_ | definition) next ⟨_, entered⟩
  · trivial
  refine (enters_clerical (read (.getInstance _ _ _) trivial) entered).bind ?_
  rintro response next ⟨_, entered⟩
  refine safe_lift_bind (fun inst _ => ?_) fun _ _ => trivial
  cases inst with
  | none => exact fun _ => entered
  | some inst =>
    have ran : Enters setting (fun told next => Gained world.log told.2 next)
        (do
          let inst ← recoverInFlight definition inst
          toldLoop config definition lease maxDriveIterations inst) next :=
      (enters_clerical atDesk_recoverInFlight.clerical entered).bind fun inst _ ended =>
        tells_toldLoop ended.2
    refine Safe.attempt (ran.imp fun _ _ entered _ => entered) fun failure next _ => ?_
    split
    · exact fun kept => absurd rfl kept
    · trivial

end Attempts

/-- Charges and side effects of compensation handlers: none, apart from side
effects whose key an attempt of a step has entered. -/
def HandlersIdle (deeds : List Deed) : Prop :=
  ∀ deed ∈ deeds, deed.compensating = true → chargesMade deed = [] ∧
    ∀ key ∈ effectsMade deed, ∃ other ∈ deeds, other.compensating = false ∧
      key ∈ effectsMade other

/-- Everything that was done is in the log: the charges one by one, and every
side effect by its key. -/
def AllLogged (deeds : List Deed) (batch : List Event) : Prop :=
  (deeds.flatMap chargesMade).Perm (chargesIn (batch.map Event.payload)) ∧
    ∀ deed ∈ deeds, ∀ key ∈ effectsMade deed, key ∈ executedIn (batch.map Event.payload)

/-- The charges are those of the attempts of steps exactly if the handlers have
made none. -/
theorem charges_perm_forward_iff (deeds : List Deed) :
    (deeds.flatMap chargesMade).Perm ((forward deeds).flatMap chargesMade) ↔
      ∀ deed ∈ deeds, deed.compensating = true → chargesMade deed = [] := by
  have split : ((deeds.filter Deed.compensating).flatMap chargesMade ++
      (forward deeds).flatMap chargesMade).Perm (deeds.flatMap chargesMade) := by
    rw [← List.flatMap_append]
    exact (List.filter_append_perm Deed.compensating deeds).flatMap_right _
  have silent : (deeds.filter Deed.compensating).flatMap chargesMade = [] ↔
      ∀ deed ∈ deeds, deed.compensating = true → chargesMade deed = [] := by
    simp [List.flatMap_eq_nil_iff]
  rw [← silent]
  constructor
  · intro permuted
    have lengths := (split.trans permuted).length_eq
    rw [List.length_append] at lengths
    exact List.eq_nil_of_length_eq_zero (by omega)
  · intro empty
    rw [empty, List.nil_append] at split
    exact split.symm

/-- The log of a drive that ends without losing its lease holds everything that
was done through its contexts exactly if its compensation handlers were idle. -/
theorem drive_logs_deeds_iff {setting : Setting} {config : Config} {lease : Lease}
    {world final : World} {report : DriveReport}
    (ran : Steps (answers setting) world (drive config lease) final (.done report))
    (kept : report.result ≠ .leaseLost) :
    (∃ deeds, Steps (answers setting) world (toldDrive config lease) final
      (.done (report, deeds))) ∧
    ∀ deeds, Steps (answers setting) world (toldDrive config lease) final
      (.done (report, deeds)) →
      ∃ batch, final.log = world.log ++ batch ∧ (AllLogged deeds batch ↔ HandlersIdle deeds) := by
  constructor
  · rw [← map_fst_toldDrive] at ran
    obtain ⟨⟨_, deeds⟩, rfl, told⟩ := steps_map_done.mp ran
    exact ⟨deeds, told⟩
  intro deeds told
  obtain ⟨batch, grown, charges, effects⟩ := (enters_toldDrive.steps told kept).gained
  refine ⟨batch, grown, ?_⟩
  have listed (key : String) : key ∈ executedIn (batch.map Event.payload) ↔
      ∃ other ∈ deeds, other.compensating = false ∧ key ∈ effectsMade other := by
    simp [effects, forward, and_assoc]
  unfold AllLogged HandlersIdle
  simp only [listed]
  rw [charges, charges_perm_forward_iff]
  constructor
  · rintro ⟨uncharged, entered⟩ deed member compensating
    exact ⟨uncharged deed member compensating, entered deed member⟩
  · intro idle
    refine ⟨fun deed member compensating => (idle deed member compensating).1, ?_⟩
    intro deed member key made
    by_cases compensating : deed.compensating = true
    · exact (idle deed member compensating).2 key made
    · exact ⟨deed, member, by simpa using compensating, made⟩

/-! ### A booking is cancelled for a fee -/

/-- A booking that is cancelled when the payment fails. -/
def tripWorkflow : WorkflowDefinition where
  workflowId := "trips"
  version := "1.0.0"
  steps := [{ stepId := "book", agentType := "booker", sideEffects := ["booking"],
              compensationAction := some "canceller" },
    { stepId := "pay", agentType := "payer", dependencies := ["book"] }]
  onFailure := .rollback
  valid := rfl

def tripSetting : Setting :=
  .simple tripWorkflow fun _ => True

/-- Pay an agency and send a message to it. -/
def agencyCall (fee : Rat) (message : String) : RunnerCode :=
  .perform (.charge { amountUsd := fee }) fun _ =>
    .perform (.executeEffect message Dict.empty "mail") fun _ => .done { output := Dict.empty }

/-- Bookings cost a dollar; a cancellation may cost a fee. -/
def tripConfig (cancellationFee : Option Rat) : Config where
  registry
    | "booker" => some fun _ => agencyCall 1 "booking"
    | "canceller" => some fun _ =>
        cancellationFee.elim (.done { output := Dict.empty }) fun fee => agencyCall fee "refund"
    | _ => some fun _ =>
        .raise { exnClass := .exception, typeName := "ValueError", message := "declined" }
  digestMessages := fun _ _ => ""

def tripLease : Lease where
  instanceId := "instance"
  tenantId := "tenant"
  workflowId := "trips"
  workflowVersion := "1.0.0"
  workerId := "worker"

/-- Every message is delivered. -/
def tripOracle : Oracle where
  executeEffect stepId effectName params _ := .ok
    { idempotencyKey := stepId ++ "/" ++ effectName, effectName := effectName, stepId := stepId,
      params := params, result := Dict.empty, deduplicated := false, guarantee := .exactlyOnce }

@[irreducible]
def tripRun (cancellationFee : Option Rat) : Except Exn (DriveReport × List Deed) × World :=
  Program.evaluate (fun world op => world.answer tripSetting tripOracle op)
    (toldDrive (tripConfig cancellationFee) tripLease) (.opened tripSetting none)

/-- How the drive ended, what it was charged, what it did, and what its log says
of the charges and the side effects. -/
def tripFacts (cancellationFee : Option Rat) :
    Option (DriveResult × List Rat × List String × List Rat × List String) :=
  match tripRun cancellationFee with
  | (.ok (report, deeds), final) => some
      (report.result, (deeds.flatMap chargesMade).map (fun charge => charge.2.amountUsd),
        deeds.flatMap effectsMade,
        (chargesIn (final.log.map Event.payload)).map (fun charge => charge.2.amountUsd),
        executedIn (final.log.map Event.payload))
  | _ => none

theorem exists_of_tripFacts {cancellationFee : Option Rat} {result : DriveResult}
    {charges entered : List Rat} {effects executed : List String}
    (facts : tripFacts cancellationFee = some (result, charges, effects, entered, executed)) :
    ∃ final report deeds, Steps (answers tripSetting) (.opened tripSetting none)
        (toldDrive (tripConfig cancellationFee) tripLease) final (.done (report, deeds)) ∧
      Steps (answers tripSetting) (.opened tripSetting none)
        (drive (tripConfig cancellationFee) tripLease) final (.done report) ∧
      report.result = result ∧
      (deeds.flatMap chargesMade).map (fun charge => charge.2.amountUsd) = charges ∧
      deeds.flatMap effectsMade = effects ∧
      (chargesIn (final.log.map Event.payload)).map (fun charge => charge.2.amountUsd) = entered ∧
      executedIn (final.log.map Event.payload) = executed := by
  have told := @steps_evaluate _ _ _ _ _ (answers tripSetting) _ _ id
    (World.answers_answer tripSetting tripOracle)
    (toldDrive (tripConfig cancellationFee) tripLease) (.opened tripSetting none)
  unfold tripFacts tripRun at facts
  split at facts
  · next report deeds final ran =>
    cases facts
    rw [ran] at told
    refine ⟨final, report, deeds, told, ?_, rfl, rfl, rfl, rfl, rfl⟩
    rw [← map_fst_toldDrive]
    exact steps_map_done.mpr ⟨_, rfl, told⟩
  · cases facts

/-- A rollback whose handlers do nothing through their contexts. -/
theorem drive_logs_deeds_iff_freeCancellation :
    ∃ final report deeds batch,
      Steps (answers tripSetting) (.opened tripSetting none) (drive (tripConfig none) tripLease)
        final (.done report) ∧
      Steps (answers tripSetting) (.opened tripSetting none)
        (toldDrive (tripConfig none) tripLease) final (.done (report, deeds)) ∧
      report.result = .rolledBack ∧
      (deeds.flatMap chargesMade).map (fun charge => charge.2.amountUsd) = [1] ∧
      final.log = (World.opened tripSetting none).log ++ batch ∧
      (AllLogged deeds batch ↔ HandlersIdle deeds) := by
  have facts : tripFacts none =
      some (.rolledBack, [1], ["book/booking"], [1], ["book/booking"]) := by
    decide +kernel
  obtain ⟨final, report, deeds, told, ran, result, charges, _⟩ := exists_of_tripFacts facts
  have kept : report.result ≠ .leaseLost := by
    rw [result]
    decide
  obtain ⟨batch, grown, logged⟩ := (drive_logs_deeds_iff ran kept).2 deeds told
  exact ⟨final, report, deeds, batch, ran, told, result, charges, grown, logged⟩

/-- The fee of a cancellation and the message that asks for it are not in the
log of the drive that rolled the workflow back. -/
theorem cancellation_not_logged :
    ∃ final report deeds batch,
      Steps (answers tripSetting) (.opened tripSetting none)
        (drive (tripConfig (some (1 / 4))) tripLease) final (.done report) ∧
      Steps (answers tripSetting) (.opened tripSetting none)
        (toldDrive (tripConfig (some (1 / 4))) tripLease) final (.done (report, deeds)) ∧
      report.result = .rolledBack ∧ final.log = (World.opened tripSetting none).log ++ batch ∧
      (deeds.flatMap chargesMade).map (fun charge => charge.2.amountUsd) = [1, 1 / 4] ∧
      (chargesIn (batch.map Event.payload)).map (fun charge => charge.2.amountUsd) = [1] ∧
      deeds.flatMap effectsMade = ["book/booking", "book/refund"] ∧
      executedIn (batch.map Event.payload) = ["book/booking"] ∧ ¬ AllLogged deeds batch := by
  have facts : tripFacts (some (1 / 4)) = some (.rolledBack, [1, 1 / 4],
      ["book/booking", "book/refund"], [1], ["book/booking"]) := by
    decide +kernel
  obtain ⟨final, report, deeds, told, ran, result, charges, effects, entered, executed⟩ :=
    exists_of_tripFacts facts
  obtain ⟨batch, grown⟩ := log_of_steps ran
  rw [grown, List.map_append] at entered executed
  have genesis : (World.opened tripSetting none).log.map Event.payload =
      [.instanceCreated "trips" "1.0.0" Dict.empty none] := rfl
  rw [genesis] at entered executed
  have logged : (chargesIn (batch.map Event.payload)).map (fun charge => charge.2.amountUsd) =
      [1] := entered
  refine ⟨final, report, deeds, batch, ran, told, result, grown, charges, logged, effects,
    executed, ?_⟩
  rintro ⟨permuted, _⟩
  have lengths := (permuted.map fun charge => charge.2.amountUsd).length_eq
  rw [charges, logged] at lengths
  cases lengths

end AgentForge.Guarantees
