import AgentForge.Cost.Routing
import AgentForge.Engine.Footprint
import AgentForge.Events.FoldLaws

/-!
# Budgets

Which models a call of the client can reach, and when all of them are capable
and affordable: the router vouches for the first choice only, the fallback
chain of a tier is walked as configured.  And how much a wave of steps may
admit: all its calls are checked against the same view of the budget.
-/

namespace AgentForge.Guarantees

open Cost Domain Engine Events Library

/-! ## The models a call reaches -/

/-- In some run of `complete`, whatever providers answer, the request is sent to
the model. -/
def Contacts (client : LLMClient) (request : LLMRequest) (needsVision : Bool)
    (budget : Option BudgetView) (model : ModelConfig) : Prop :=
  ∃ sent, Program.Performs Program.chaos () (client.complete request needsVision budget)
    (.send model sent)

/-- The models stored under the keys, up to the first that has no registered
provider. -/
def walkable (client : LLMClient) : List String → List ModelConfig
  | [] => []
  | key :: rest =>
      match client.lookup key with
      | .ok model => model :: walkable client rest
      | .error _ => []

private def outage : Exn :=
  { exnClass := .agentForge, typeName := "RateLimitError", message := "", retryable := true }

variable {client : LLMClient} {view : BudgetView} {model : ModelConfig} {keys : List String}

theorem performs_walk_iff {request : LLMRequest} {decision : RouteDecision}
    {keys tried : List String} {last : Option Exn} :
    (∃ sent, Program.Performs Program.chaos () (client.walk request decision keys tried last)
      (.send model sent)) ↔ model ∈ walkable client keys := by
  induction keys generalizing tried last with
  | nil =>
    simp only [LLMClient.walk, walkable, List.not_mem_nil, iff_false]
    rintro ⟨sent, performs⟩
    exact Program.not_performs_raise performs
  | cons key rest ih =>
    unfold LLMClient.walk walkable
    cases client.lookup key with
    | error failure =>
      simp only [List.not_mem_nil, iff_false]
      rintro ⟨sent, performs⟩
      exact Program.not_performs_raise performs
    | ok found =>
      simp only [List.mem_cons]
      constructor
      · rintro ⟨sent, performs⟩
        rcases Program.performs_perform_iff.mp performs with same | ⟨response, _, _, later⟩
        · cases same
          exact .inl rfl
        · cases response with
          | ok answer => exact absurd later Program.not_performs_done
          | error failure =>
            by_cases retryable : retryableLlm failure = true
            · simp only [retryable, if_true] at later
              exact .inr (ih.mp ⟨sent, later⟩)
            · simp only [retryable] at later
              exact absurd later Program.not_performs_raise
      · rintro (rfl | member)
        · exact ⟨_, Program.performs_perform_iff.mpr (.inl rfl)⟩
        · obtain ⟨sent, performs⟩ := ih.mpr member
          exact ⟨sent, Program.performs_perform_iff.mpr
            (.inr ⟨.error outage, (), trivial, performs⟩)⟩

private theorem mem_walkable_cons {key : String} {first model : ModelConfig}
    (found : client.lookup key = .ok first) :
    model ∈ walkable client (key :: keys) ↔ model = first ∨ model ∈ walkable client keys := by
  simp [walkable, found]

/-- Leaving out repetitions of the first model changes nothing. -/
theorem mem_walkable_filter_iff {key : String} :
    model ∈ walkable client (key :: keys.filter fun other => other ≠ key) ↔
      model ∈ walkable client (key :: keys) := by
  cases found : client.lookup key with
  | error failure => simp [walkable, found]
  | ok first =>
    rw [mem_walkable_cons found, mem_walkable_cons found]
    induction keys with
    | nil => rfl
    | cons other rest ih =>
      by_cases same : other = key
      · subst same
        rw [List.filter_cons_of_neg (by simp), ih, mem_walkable_cons found]
        exact ⟨fun member => member.imp_right .inr, fun member =>
          member.elim .inl fun later => later.elim .inl .inr⟩
      · rw [List.filter_cons_of_pos (by simpa using same)]
        cases next : client.lookup other with
        | error failure => simp [walkable, next]
        | ok second =>
          rw [mem_walkable_cons next, mem_walkable_cons next]
          exact or_left_comm.trans ((or_congr_right ih).trans or_left_comm)

section Contacts

variable {client : LLMClient} {request : LLMRequest} {needsVision : Bool}
  {budget : Option BudgetView} {model : ModelConfig}

/-- The models a call reaches: the cheapest eligible one, if it is affordable,
and then the chain of the tier. -/
theorem contacts_iff : Contacts client request needsVision budget model ↔
      ∃ first, client.registry.cheapest (client.routeRequest request needsVision) = some first ∧
        Affordable (client.routeRequest request needsVision) budget first ∧
        model ∈ walkable client (first.key :: client.registry.fallbackChain request.tier) := by
  unfold Contacts LLMClient.complete
  cases selected : client.registry.select (client.routeRequest request needsVision) budget with
  | error failure =>
    constructor
    · rintro ⟨sent, performs⟩
      exact absurd performs Program.not_performs_raise
    · rintro ⟨first, found, affordable, _⟩
      have chosen := select_eq_ok_iff.mpr ⟨first, found, affordable, rfl⟩
      rw [selected] at chosen
      cases chosen
  | ok decision =>
    obtain ⟨first, found, affordable, rfl⟩ := select_eq_ok_iff.mp selected
    have chain : (client.registry.decisionFor (client.routeRequest request needsVision)
        first).fallbackChain =
          (client.registry.fallbackChain request.tier).filter fun key => key ≠ first.key := by
      simp [ModelRegistry.decisionFor, LLMClient.routeRequest]
    refine performs_walk_iff.trans ?_
    rw [chain]
    refine mem_walkable_filter_iff.trans ⟨fun member => ⟨first, found, affordable, member⟩, ?_⟩
    rintro ⟨other, foundOther, _, member⟩
    cases found.symm.trans foundOther
    exact member

end Contacts

/-- If the cheapest eligible model is affordable, then so are, and eligible,
the models that the configured chain of the tier leads to. -/
def FallbacksSuit (client : LLMClient) (request : RouteRequest) (budget : Option BudgetView) :
    Prop :=
  ∀ first, client.registry.cheapest request = some first → Affordable request budget first →
    ∀ model ∈ walkable client (first.key :: client.registry.fallbackChain request.costTier),
      model ∈ client.registry.eligible request ∧ Affordable request budget model

/-- Every model a call reaches is eligible and affordable exactly when the
configured chain suits the request. -/
theorem contacted_suitable_iff (client : LLMClient) (request : LLMRequest) (needsVision : Bool)
    (budget : Option BudgetView) :
    (∀ model, Contacts client request needsVision budget model →
      model ∈ client.registry.eligible (client.routeRequest request needsVision) ∧
        Affordable (client.routeRequest request needsVision) budget model) ↔
      FallbacksSuit client (client.routeRequest request needsVision) budget := by
  constructor
  · intro suitable first found affordable model member
    exact suitable model (contacts_iff.mpr ⟨first, found, affordable, member⟩)
  · intro suits model contacted
    obtain ⟨first, found, affordable, member⟩ := contacts_iff.mp contacted
    exact suits first found affordable model member

/-! ## A fallback beyond the budget -/

/-- A model priced at one rate for both directions. -/
def flatRate (key : String) (usdPerMtok : Rat) (nonneg : 0 ≤ usdPerMtok) : ModelConfig where
  key := key
  modelId := key
  provider := "provider"
  inputPerMtok := usdPerMtok
  outputPerMtok := usdPerMtok
  contextWindow := 200000
  maxOutputTokens := 64000
  avgLatencyMs := 1000
  reliabilityScore := 1
  tiers := [.standard]
  input_nonneg := nonneg
  output_nonneg := nonneg
  window_pos := by decide
  maxOutput_pos := by decide
  reliability_mem := by decide +kernel

def smallModel : ModelConfig :=
  flatRate "small" 1 (by decide +kernel)

def largeModel : ModelConfig :=
  flatRate "large" 1000 (by decide +kernel)

/-- Two models of one tier, each the fallback of the other. -/
def twoModels : ModelRegistry where
  models := Dict.ofList [("small", smallModel), ("large", largeModel)]
  fallbackChains := Dict.ofList [(.standard, ["small", "large"])]
  keyed := by
    intro key model stored
    have member := (Dict.get?_ofList_eq_some_iff (by decide)).mp stored
    simp only [List.mem_cons, List.not_mem_nil, or_false, Prod.mk.injEq] at member
    rcases member with ⟨rfl, rfl⟩ | ⟨rfl, rfl⟩
    · rfl
    · rfl
  known := by
    intro tier keys stored key member
    have entry := (Dict.get?_ofList_eq_some_iff (by decide)).mp stored
    simp only [List.mem_cons, List.not_mem_nil, or_false, Prod.mk.injEq] at entry
    obtain ⟨rfl, rfl⟩ := entry
    simp only [List.mem_cons, List.not_mem_nil, or_false] at member
    rcases member with rfl | rfl
    · exact ⟨smallModel, rfl⟩
    · exact ⟨largeModel, rfl⟩

def twoModelClient : LLMClient where
  registry := twoModels
  providers := ["provider"]
  describe := fun _ => ""

def shortPrompt : LLMRequest where
  messages := [⟨"user", "hi"⟩]
  expectedOutputTokens := some 1000

/-- One cent left. -/
def oneCent : BudgetView where
  remainingWorkflowUsd := some (1 / 100)
  remainingTenantDailyUsd := none

/-- With one cent left, a rate limit of the small model sends the request to the
large one, which is projected to cost a dollar. -/
theorem contacts_unaffordable :
    Contacts twoModelClient shortPrompt false (some oneCent) largeModel ∧
      ¬ Affordable (twoModelClient.routeRequest shortPrompt false) (some oneCent) largeModel := by
  constructor
  · refine contacts_iff.mpr ⟨smallModel, by decide +kernel, ?_, ?_⟩
    · intro view isView
      cases isView
      decide +kernel
    · exact List.mem_cons_of_mem _ (List.mem_cons_of_mem _ List.mem_cons_self)
  · intro affordable
    exact absurd (affordable oneCent rfl) (by decide +kernel)

/-! ## The calls of a wave -/

/-- What is observed of a wave: what the tenant has spent today when the wave
looks at the ledger, the requests its attempts make, and the decisions of the
router. -/
structure Spending where
  spentToday : Rat
  asked : List LLMRequest := []
  admitted : List RouteDecision := []

namespace Spending

/-- A request and what the router makes of it. -/
def ask (spending : Spending) (request : LLMRequest) (selected : Except Exn RouteDecision) :
    Spending :=
  { spending with asked := spending.asked ++ [request]
                  admitted := spending.admitted ++ selected.toOption.toList }

/-- The answers a wave may get.  A model call goes through the router: if it is
admitted, the providers may answer anything. -/
def answers (client : LLMClient) (spending : Spending) :
    (op : Op) → op.Result → Spending → Prop
  | .spentToday _ _, spent, next => spent = spending.spentToday ∧ next = spending
  | .appendNew _ _ drafts expectedVersion _ _, result, next =>
      (∀ version events, result = .ok (version, events) →
        events = resequence expectedVersion drafts) ∧ next = spending
  | .completeLLM _ request budget, completion, next =>
      let selected := client.registry.select (client.routeRequest request false) budget
      (∀ failure, selected = .error failure → completion = .error failure) ∧
        next = spending.ask request selected
  | _, _, next => next = spending

end Spending

/-- What is left of the workflow budget and of the daily budget of the tenant, as
far as the worker is wired to know it. -/
def remainingView (config : Config) (inst : WorkflowInstance) (spentToday : Rat) : BudgetView where
  remainingWorkflowUsd := inst.remainingBudgetUsd
  remainingTenantDailyUsd := config.budget.join.map fun limit => limit - spentToday

/-- What a request is projected to cost: the price of the cheapest eligible model, if
the view allows it or the worker checks no budgets. -/
def priceOf (client : LLMClient) (config : Config) (view : BudgetView) (request : LLMRequest) :
    Rat :=
  let route := client.routeRequest request false
  match client.registry.cheapest route with
  | none => 0
  | some model =>
      if config.budget.isNone || allows view (route.projectedCost model) then
        route.projectedCost model
      else
        0

def projectedSum (admitted : List RouteDecision) : Rat :=
  (admitted.map RouteDecision.projectedCostUsd).sum

/-- What is admitted are the requests at their prices. -/
def Priced (client : LLMClient) (config : Config) (view : BudgetView) (spending : Spending) :
    Prop :=
  projectedSum spending.admitted = (spending.asked.map (priceOf client config view)).sum

/-- Model calls are checked against the view, if the worker checks budgets. -/
def ChecksView (config : Config) (view : BudgetView) (_ : Spending) : Op → Prop
  | .completeLLM _ _ budget => budget = config.budget.map fun _ => view
  | _ => True

section Wave

variable {client : LLMClient} {config : Config} {view : BudgetView} {spending next : Spending}
  {definition : WorkflowDefinition} {inst : WorkflowInstance}

theorem Spending.spentToday_of_answers {op : Op} {response : op.Result}
    (answered : spending.answers client op response next) :
    next.spentToday = spending.spentToday := by
  cases op with
  | completeLLM =>
    rw [answered.2]
    rfl
  | spentToday | appendNew => rw [answered.2]
  | _ => rw [answered]

/-- The router admits a request at its price. -/
theorem projectedSum_select (client : LLMClient) (config : Config) (view : BudgetView)
    (request : LLMRequest) :
    projectedSum (client.registry.select (client.routeRequest request false)
      (config.budget.map fun _ => view)).toOption.toList = priceOf client config view request := by
  unfold priceOf ModelRegistry.select
  dsimp only
  cases client.registry.cheapest (client.routeRequest request false) with
  | none => rfl
  | some model =>
    cases config.budget with
    | none => simp [projectedSum, ModelRegistry.decisionFor, Except.toOption]
    | some limit =>
      cases allowed : allows view ((client.routeRequest request false).projectedCost model) <;>
        simp [Option.filter, allowed, projectedSum, ModelRegistry.decisionFor, Except.toOption]

theorem Priced.answers {op : Op} {response : op.Result}
    (priced : Priced client config view spending)
    (checks : ChecksView config view spending op)
    (answered : spending.answers client op response next) : Priced client config view next := by
  cases op with
  | completeLLM call request budget =>
    obtain ⟨_, rfl⟩ := answered
    obtain rfl : budget = config.budget.map fun _ => view := checks
    unfold Priced projectedSum at priced ⊢
    rw [Spending.ask, List.map_append, List.map_append, List.sum_append, List.sum_append, priced,
      List.map_singleton, List.sum_singleton]
    exact congrArg _ (projectedSum_select client config view request)
  | spentToday | appendNew => exact answered.2 ▸ priced
  | _ => exact answered ▸ priced

theorem remaining_of_starts {inst result : WorkflowInstance} {events : List Event}
    (all : ∀ event ∈ events, launches event.payload)
    (folded : foldOnto definition inst events = .ok result) :
    result.remainingBudgetUsd = inst.remainingBudgetUsd := by
  unfold foldOnto at folded
  cases tail : fold events (some definition) (some inst) with
  | error failure =>
    rw [tail] at folded
    cases folded
  | ok after =>
    rw [tail] at folded
    cases folded
    refine fixed_of_fold_base WorkflowInstance.remainingBudgetUsd (fun _ _ _ => rfl) ?_ tail
    intro event member current next handled
    have isStart := all event member
    unfold handle at handled
    cases payload : event.payload <;> rw [payload] at handled isStart
    case stepStatusChanged =>
      obtain ⟨_, _, rfl⟩ := onStepStatus_eq_ok.mp handled
      rfl
    case stepStarted =>
      obtain ⟨_, rfl⟩ := onStepStarted_eq_ok.mp handled
      rfl
    all_goals exact isStart.elim

/-- Code whose model calls are all checked against the view. -/
abbrev Checks {α : Type} (client : LLMClient) (config : Config) (view : BudgetView)
    (post : α → Prop) (code : Code α) (spending : Spending) : Prop :=
  Program.Safe (Spending.answers client) (ChecksView config view)
    (fun value next => post value ∧ next.spentToday = spending.spentToday)
    (fun _ _ => True) code spending

theorem checks_of_yields {α : Type} {allowed : Op → Prop} {returns : α → Prop} {code : Code α}
    (yields : Program.Yields allowed returns code)
    (checks : ∀ op, allowed op → ChecksView config view spending op) :
    Checks client config view returns code spending := by
  have kept (current : Spending) (op : Op) (same : current.spentToday = spending.spentToday)
      (isAllowed : allowed op) : ChecksView config view current op ∧ ∀ response next,
        current.answers client op response next → next.spentToday = spending.spentToday :=
    ⟨checks op isAllowed, fun _ _ answered =>
      (Spending.spentToday_of_answers answered).trans same⟩
  exact yields.safe kept (fun _ _ _ => trivial) rfl

private theorem checks_append {drafts : List Event}
    (all : ∀ event ∈ drafts, launches event.payload) :
    Checks client config view (fun result => result.remainingBudgetUsd = inst.remainingBudgetUsd)
      (append definition inst drafts) spending := by
  unfold append
  by_cases empty : drafts.isEmpty = true
  · rw [if_pos empty]
    exact ⟨rfl, rfl⟩
  · rw [if_neg empty]
    refine ⟨trivial, ?_⟩
    rintro (failure | ⟨version, events⟩) next ⟨numbered, rfl⟩
    · trivial
    · obtain rfl := numbered version events rfl
      change Program.Safe _ _ _ _ (lift (foldOnto definition inst _)) next
      cases folded : foldOnto definition inst (resequence inst.version drafts) with
      | error failure => trivial
      | ok result =>
        refine ⟨remaining_of_starts ?_ folded, rfl⟩
        exact forall_mem_resequence all

private theorem checks_budgetView : Checks client config view
      (fun budget => budget = config.budget.map fun _ =>
        remainingView config inst spending.spentToday)
      (budgetView config inst) spending := by
  unfold budgetView remainingView
  cases config.budget with
  | none => exact ⟨rfl, rfl⟩
  | some dailyLimit =>
    refine ⟨trivial, ?_⟩
    rintro now _ rfl
    cases dailyLimit with
    | none => exact ⟨rfl, rfl⟩
    | some limit =>
      refine ⟨trivial, ?_⟩
      rintro spent _ ⟨rfl, rfl⟩
      exact ⟨rfl, rfl⟩

/-- All model calls of a wave are checked against what is left at its start. -/
theorem checks_dispatchWave (config : Config) (definition : WorkflowDefinition) (lease : Lease)
    (inst : WorkflowInstance) (dispatch : List (String × Nat)) (spending : Spending) :
    Checks client config (remainingView config inst spending.spentToday) (fun _ => True)
      (dispatchWave config definition lease inst dispatch) spending := by
  refine Program.Safe.bind (checks_of_yields (yields_groups dispatch fun candidate =>
    yields_startEvents inst lease.workerId candidate) ?_) ?_
  · intro op drafts
    cases op with
    | completeLLM => exact drafts.elim
    | _ => trivial
  rintro started readied ⟨⟨payloads, drafted, all⟩, sinceStart⟩
  refine Program.Safe.bind (checks_append (drafted.forall_mem all)) ?_
  rintro result running ⟨remaining, sinceReadied⟩
  refine Program.Safe.bind checks_budgetView ?_
  rintro budget viewed ⟨checked, sinceRunning⟩
  have current : remainingView config result running.spentToday =
      remainingView config inst spending.spentToday := by
    rw [sinceReadied, sinceStart, remainingView, remaining]
    rfl
  rw [current] at checked
  refine Program.Safe.bind (checks_of_yields
    (yields_gather config definition result budget dispatch) ?_) ?_
  · intro op inWave
    cases op with
    | completeLLM => exact Eq.trans inWave checked
    | _ => trivial
  rintro results attempted ⟨_, sinceViewed⟩
  refine Program.Safe.imp (checks_of_yields (yields_settleWave config definition result results)
    ?_) ?_
  · intro op settles
    cases op with
    | completeLLM => exact settles.elim
    | _ => trivial
  · rintro _ settled ⟨_, sinceAttempted⟩
    exact ⟨trivial, by rw [sinceAttempted, sinceViewed, sinceRunning, sinceReadied, sinceStart]⟩

end Wave

/-! ## The sum of a wave -/

/-- The requests that the view allows one by one fit into it together. -/
def FitTogether (client : LLMClient) (config : Config) (view : BudgetView)
    (asked : List LLMRequest) : Prop :=
  allows view (asked.map (priceOf client config view)).sum = true

/-- The calls admitted in a wave are within what is left at its start exactly
when the requests of its attempts fit together. -/
theorem wave_within_budget_iff (client : LLMClient) (config : Config)
    (definition : WorkflowDefinition) (lease : Lease) (inst : WorkflowInstance)
    (dispatch : List (String × Nat)) (spentToday : Rat) (final : Spending)
    (residual : Code WorkflowInstance)
    (run : Program.Steps (Spending.answers client) { spentToday := spentToday }
      (dispatchWave config definition lease inst dispatch) final residual) :
    allows (remainingView config inst spentToday) (projectedSum final.admitted) = true ↔
      FitTogether client config (remainingView config inst spentToday) final.asked := by
  have checks : Checks client config (remainingView config inst spentToday) (fun _ => True)
      (dispatchWave config definition lease inst dispatch) { spentToday := spentToday } :=
    checks_dispatchWave config definition lease inst dispatch { spentToday := spentToday }
  have priced : Priced client config (remainingView config inst spentToday) final :=
    checks.preserves (fun _ _ _ _ holds checked answered => holds.answers checked answered) run rfl
  rw [FitTogether, ← priced]

/-! ## Two calls against one view -/

/-- Providers complete every admitted call. -/
def completed : Except Exn RouteDecision → Except Exn LLMCompletion
  | .ok decision => .ok ⟨{ modelId := decision.model.modelId, text := "" }, 0⟩
  | .error failure => .error failure

/-- One answer to every operation of a wave. -/
def Spending.answer (client : LLMClient) (spending : Spending) : (op : Op) → op.Result × Spending
  | .now => (0, spending)
  | .newId => ("", spending)
  | .getDefinition .. => (none, spending)
  | .getInstance .. => (.ok none, spending)
  | .appendNew _ _ drafts expectedVersion _ _ =>
      (.ok (expectedVersion + drafts.length, resequence expectedVersion drafts), spending)
  | .spentToday .. => (spending.spentToday, spending)
  | .recordSpend .. => ((), spending)
  | .deadlinePassed _ => (false, spending)
  | .completeLLM _ request budget =>
      let selected := client.registry.select (client.routeRequest request false) budget
      (completed selected, spending.ask request selected)
  | .executeEffect .. => (.error (.configurationError "no provider"), spending)
  | .external query => (.ok query, spending)
  | .compensateInstance .. => (.ok [], spending)
  | .recordDeadLetter _ => (.ok (), spending)
  | .getDeadLetter _ => (none, spending)
  | .resolveDeadLetter .. => ((), spending)
  | .getEscalation _ => (none, spending)
  | .dueEscalations .. => ([], spending)
  | .mark _ => ((), spending)

theorem Spending.answers_answer (client : LLMClient) (spending : Spending) (op : Op) :
    spending.answers client op (spending.answer client op).1 (spending.answer client op).2 := by
  cases op with
  | spentToday => exact ⟨rfl, rfl⟩
  | appendNew =>
    refine ⟨?_, rfl⟩
    rintro version events same
    cases same
    rfl
  | completeLLM call request budget =>
    refine ⟨fun failure refused => ?_, rfl⟩
    exact congrArg completed refused
  | _ => rfl

/-- Two independent steps. -/
def pairWorkflow : WorkflowDefinition where
  workflowId := "pair"
  version := "1.0.0"
  steps := [{ stepId := "left", agentType := "asker" }, { stepId := "right", agentType := "asker" }]
  valid := rfl

/-- A running instance of it, with a budget. -/
def pairInstance (budgetLimitUsd : Rat) : WorkflowInstance where
  instanceId := "instance"
  tenantId := "tenant"
  workflowId := "pair"
  workflowVersion := "1.0.0"
  status := .running
  stepStates := Dict.ofList [("left", { stepId := "left" }), ("right", { stepId := "right" })]
  budgetLimitUsd := some budgetLimitUsd
  version := 2

/-- A worker that checks budgets and whose steps make one model call each. -/
def askingConfig : Config where
  registry := fun _ => some fun _ =>
    .perform (.llm shortPrompt) fun _ => .done { output := Dict.empty }
  budget := some none
  digestMessages := fun _ _ => ""

def pairLease : Lease where
  instanceId := "instance"
  tenantId := "tenant"
  workflowId := "pair"
  workflowVersion := "1.0.0"
  workerId := "worker"

/-- A wave of both steps, for at most a number of operations. -/
def pairWave (budgetLimitUsd : Rat) (count : Nat) : Spending × Code WorkflowInstance :=
  Program.runFor (fun spending op => spending.answer twoModelClient op) count { spentToday := 0 }
    (dispatchWave askingConfig pairWorkflow pairLease (pairInstance budgetLimitUsd)
      [("left", 1), ("right", 1)])

theorem steps_pairWave (budgetLimitUsd : Rat) (count : Nat) :
    Program.Steps (Spending.answers twoModelClient) { spentToday := 0 }
      (dispatchWave askingConfig pairWorkflow pairLease (pairInstance budgetLimitUsd)
        [("left", 1), ("right", 1)])
      (pairWave budgetLimitUsd count).1 (pairWave budgetLimitUsd count).2 :=
  Program.steps_runFor (Spending.answers_answer twoModelClient) count _ _

/-- With a cent left, both calls fit together. -/
theorem wave_within_budget_iff_pairWave :
    FitTogether twoModelClient askingConfig (remainingView askingConfig (pairInstance (1 / 100)) 0)
      (pairWave (1 / 100) 100).1.asked ∧ (pairWave (1 / 100) 100).1.asked.length = 2 :=
  ⟨(wave_within_budget_iff twoModelClient askingConfig pairWorkflow pairLease
    (pairInstance (1 / 100)) _ 0 _ _ (steps_pairWave (1 / 100) 100)).mp (by decide +kernel),
    by decide +kernel⟩

/-- With a budget that is enough for one call but not for two, a wave of two
steps is admitted both calls. -/
theorem wave_beyond_budget :
    Program.Steps (Spending.answers twoModelClient) { spentToday := 0 }
      (dispatchWave askingConfig pairWorkflow pairLease (pairInstance (3 / 2000))
        [("left", 1), ("right", 1)])
      (pairWave (3 / 2000) 100).1 (pairWave (3 / 2000) 100).2 ∧
    (pairWave (3 / 2000) 100).1.admitted.length = 2 ∧
    (pairInstance (3 / 2000)).remainingBudgetUsd = some (3 / 2000) ∧
    3 / 2000 < projectedSum (pairWave (3 / 2000) 100).1.admitted :=
  ⟨steps_pairWave (3 / 2000) 100, by decide +kernel, by decide +kernel, by decide +kernel⟩

end AgentForge.Guarantees
