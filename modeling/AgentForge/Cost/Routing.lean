import AgentForge.Engine.Operation
import Mathlib.Algebra.Order.Field.Rat
import Mathlib.Data.List.Sort

/-!
# Cost-aware routing

The model registry, the router that picks the cheapest capable model within the
budget, and the client that sends a request to the chosen model and walks the
fallback chain of its tier when a provider fails.  Prices, projections and
limits are exact rational numbers.
-/

namespace AgentForge.Cost

open Domain Engine Events Library

/-! ## The model registry -/

/-- What the registry file says about a model. -/
structure ModelSpec where
  modelId : String
  provider : String
  inputPerMtok : Rat
  outputPerMtok : Rat
  contextWindow : Nat
  maxOutputTokens : Nat
  avgLatencyMs : Nat
  reliabilityScore : Rat
  supportsTools : Bool := true
  supportsVision : Bool := false
  tiers : List CostTier := []
  input_nonneg : 0 ≤ inputPerMtok
  output_nonneg : 0 ≤ outputPerMtok
  window_pos : 0 < contextWindow
  maxOutput_pos : 0 < maxOutputTokens
  reliability_mem : 0 ≤ reliabilityScore ∧ reliabilityScore ≤ 1
  deriving DecidableEq

structure ModelConfig extends ModelSpec where
  key : String
  deriving DecidableEq

def ModelConfig.costUsd (model : ModelConfig) (inputTokens outputTokens : Int) : Rat :=
  inputTokens / 1000000 * model.inputPerMtok + outputTokens / 1000000 * model.outputPerMtok

/-- `ModelRegistry`, as its loader builds it: models are stored under their own
keys and fallback chains name stored models only. -/
structure ModelRegistry where
  models : Dict String ModelConfig
  fallbackChains : Dict CostTier (List String)
  keyed : ∀ key model, models.get? key = some model → model.key = key
  known : ∀ tier keys, fallbackChains.get? tier = some keys →
    ∀ key ∈ keys, ∃ model, models.get? key = some model

def tierValue : CostTier → String
  | .cheap => "cheap"
  | .standard => "standard"
  | .premium => "premium"
  | .critical => "critical"

namespace ModelRegistry

variable (registry : ModelRegistry)

/-- `get`. -/
def get (key : String) : Except Exn ModelConfig :=
  match registry.models.get? key with
  | some model => .ok model
  | none => .error (.configurationError ("unknown model '" ++ key ++ "'"))

/-- `for_tier`: cheapest list price first. -/
def forTier (tier : CostTier) : List ModelConfig :=
  (registry.models.values.filter fun model => tier ∈ model.tiers).insertionSort
    fun first second => first.costUsd 1000000 1000000 ≤ second.costUsd 1000000 1000000

/-- `fallback_chain`. -/
def fallbackChain (tier : CostTier) : List String :=
  (registry.fallbackChains.get? tier).getD []

end ModelRegistry

/-! ## Budgets -/

/-- `BudgetView.allows`. -/
def allows (view : BudgetView) (projectedUsd : Rat) : Bool :=
  [view.remainingWorkflowUsd, view.remainingTenantDailyUsd].all fun limit =>
    limit.all fun remaining => projectedUsd ≤ remaining

/-- `BudgetView.tightest_remaining`. -/
def tightestRemaining (view : BudgetView) : Option Rat :=
  match view.remainingWorkflowUsd, view.remainingTenantDailyUsd with
  | some workflow, some daily => some (min workflow daily)
  | some workflow, none => some workflow
  | none, daily => daily

/-! ## The router -/

structure RouteRequest where
  costTier : CostTier := .standard
  taskType : String := "general"
  estimatedInputTokens : Nat := 1000
  expectedOutputTokens : Nat := 500
  needsTools : Bool := false
  needsVision : Bool := false
  reliabilityFloor : Rat := 0
  maxLatencyMs : Option Nat := none
  exclude : List String := []

structure RouteDecision where
  modelKey : String
  model : ModelConfig
  projectedCostUsd : Rat
  projectedInputTokens : Nat
  projectedOutputTokens : Nat
  fallbackChain : List String := []

/-- The cost a model is projected to have for a request. -/
def RouteRequest.projectedCost (request : RouteRequest) (model : ModelConfig) : Rat :=
  model.costUsd request.estimatedInputTokens request.expectedOutputTokens

/-- The filters of `_eligible` that come after the tier. -/
def RouteRequest.fits (request : RouteRequest) (model : ModelConfig) : Bool :=
  model.key ∉ request.exclude &&
    (!request.needsTools || model.supportsTools) &&
    (!request.needsVision || model.supportsVision) &&
    decide (request.reliabilityFloor ≤ model.reliabilityScore) &&
    request.maxLatencyMs.all (fun limit => model.avgLatencyMs ≤ limit) &&
    decide (request.estimatedInputTokens + request.expectedOutputTokens ≤ model.contextWindow) &&
    decide (request.expectedOutputTokens ≤ model.maxOutputTokens)

def pythonBool (flag : Bool) : String :=
  if flag then "True" else "False"

def noEligibleModelError (request : RouteRequest) : Exn :=
  { exnClass := .agentForge, typeName := "NoEligibleModelError",
    message := "no model satisfies tier=" ++ tierValue request.costTier ++ " tools=" ++
      pythonBool request.needsTools ++ " vision=" ++ pythonBool request.needsVision ++
      " reliability>=" ++ toString request.reliabilityFloor }

def budgetExceededError (model : ModelConfig) (projected : Rat) (view : BudgetView) : Exn :=
  { exnClass := .agentForge, typeName := "BudgetExceededError",
    message := "projected $" ++ formatFixed4 projected ++ " for " ++ model.key ++
      " exceeds remaining budget $" ++ ((tightestRemaining view).elim "None" formatFixed4) }

namespace ModelRegistry

variable (registry : ModelRegistry) (request : RouteRequest) (budget : Option BudgetView)

/-- `_eligible`. -/
def eligible : List ModelConfig :=
  (registry.forTier request.costTier).filter request.fits

/-- The first of the eligible models with the lowest projected cost. -/
def cheapest : Option ModelConfig :=
  ((registry.eligible request).insertionSort fun first second =>
    request.projectedCost first ≤ request.projectedCost second).head?

/-- The decision to use a model. -/
def decisionFor (model : ModelConfig) : RouteDecision where
  modelKey := model.key
  model := model
  projectedCostUsd := request.projectedCost model
  projectedInputTokens := request.estimatedInputTokens
  projectedOutputTokens := request.expectedOutputTokens
  fallbackChain := (registry.fallbackChain request.costTier).filter fun key =>
    key ≠ model.key && key ∉ request.exclude

/-- `CostAwareRouter.select`. -/
def select : Except Exn RouteDecision :=
  match registry.cheapest request with
  | none => .error (noEligibleModelError request)
  | some model =>
      let projected := request.projectedCost model
      match budget.filter fun view => !allows view projected with
      | some view => .error (budgetExceededError model projected view)
      | none => .ok (registry.decisionFor request model)

end ModelRegistry

/-- The projected cost of a model for a request is within the budget. -/
def Affordable (request : RouteRequest) (budget : Option BudgetView) (model : ModelConfig) :
    Prop :=
  ∀ view, budget = some view → allows view (request.projectedCost model) = true

section Select

variable {registry : ModelRegistry} {request : RouteRequest} {budget : Option BudgetView}

/-- What a selection says: the cheapest eligible model, within the budget. -/
theorem select_eq_ok_iff {decision : RouteDecision} :
    registry.select request budget = .ok decision ↔
      ∃ model, registry.cheapest request = some model ∧ Affordable request budget model ∧
        registry.decisionFor request model = decision := by
  unfold ModelRegistry.select
  cases registry.cheapest request with
  | none => simp
  | some model =>
    cases budget with
    | none => simp [Affordable]
    | some view =>
      cases allowed : allows view (request.projectedCost model) with
      | true => simp [Affordable, Option.filter, allowed]
      | false => simp [Affordable, Option.filter, allowed]

end Select

/-! ## The client -/

def charsPerToken : Nat := 4

def perMessageOverhead : Nat := 4

/-- `estimate_text_tokens`: rounded up. -/
def estimateTextTokens (text : String) : Nat :=
  (text.length + (charsPerToken - 1)) / charsPerToken

/-- `estimate_message_tokens`; `describe` is the text of a tool description. -/
def estimateMessageTokens (describe : JsonDict → String) (messages : List LLMMessage)
    (system : Option String) (tools : List JsonDict) : Nat :=
  system.elim 0 estimateTextTokens +
    (messages.map fun message => estimateTextTokens message.content + perMessageOverhead).sum +
    (tools.map fun tool => estimateTextTokens (describe tool)).sum

/-- The request as a provider receives it. -/
structure ProviderRequest where
  modelId : String
  messages : List LLMMessage
  system : Option String
  tools : List JsonDict
  maxTokens : Nat

/-- What the client asks of its surroundings: one completion by one model. -/
inductive ClientOp
  | send (model : ModelConfig) (request : ProviderRequest)

@[reducible]
def ClientOp.Result : ClientOp → Type
  | .send .. => Except Exn LLMResponse

abbrev ClientCode (α : Type) := Program ClientOp ClientOp.Result Exn α

/-- `LLMCompletion`. -/
structure Completion where
  response : LLMResponse
  decision : RouteDecision
  costUsd : Rat
  modelsTried : List String

/-- `_RETRYABLE_LLM`. -/
def retryableLlm (failure : Exn) : Bool :=
  failure.typeName ∈ ["LLMTimeoutError", "RateLimitError", "MalformedOutputError"]

def llmError (message : String) : Exn :=
  { exnClass := .agentForge, typeName := "LLMError", message := message }

structure LLMClient where
  registry : ModelRegistry
  /-- Names under which providers are registered. -/
  providers : List String
  /-- The text that stands for a tool description. -/
  describe : JsonDict → String

namespace LLMClient

variable (client : LLMClient)

/-- The request as the router sees it. -/
def routeRequest (request : LLMRequest) (needsVision : Bool) : RouteRequest where
  costTier := request.tier
  taskType := request.taskType
  estimatedInputTokens :=
    estimateMessageTokens client.describe request.messages request.system request.tools
  expectedOutputTokens :=
    match request.expectedOutputTokens with
    | some (tokens + 1) => tokens + 1
    | _ => min request.maxTokens 1024
  needsTools := !request.tools.isEmpty
  needsVision := needsVision
  reliabilityFloor := request.reliabilityFloor

/-- The model stored under a key, if its provider is registered. -/
def lookup (key : String) : Except Exn ModelConfig := do
  let model ← client.registry.get key
  if model.provider ∈ client.providers then pure model
  else throw (.configurationError ("no LLM provider registered as '" ++ model.provider ++ "'"))

/-- The loop of `complete` over the chosen model and its fallbacks. -/
def walk (request : LLMRequest) (decision : RouteDecision) :
    List String → List String → Option Exn → ClientCode Completion
  | [], _, last =>
      .raise (last.getD (llmError "every model in the fallback chain failed"))
  | key :: rest, tried, _ =>
      match client.lookup key with
      | .error failure => .raise failure
      | .ok model =>
          .perform
            (.send model
              { modelId := model.modelId, messages := request.messages, system := request.system,
                tools := request.tools, maxTokens := request.maxTokens })
            fun
            | .ok response => .done
                { response := response
                  decision := decision
                  costUsd := model.costUsd response.tokensInput response.tokensOutput
                  modelsTried := tried ++ [key] }
            | .error failure =>
                if retryableLlm failure then
                  walk request decision rest (tried ++ [key]) (some failure)
                else
                  .raise failure

/-- `complete`. -/
def complete (request : LLMRequest) (needsVision : Bool) (budget : Option BudgetView) :
    ClientCode Completion :=
  match client.registry.select (client.routeRequest request needsVision) budget with
  | .error failure => .raise failure
  | .ok decision =>
      client.walk request decision (decision.modelKey :: decision.fallbackChain) [] none

end LLMClient

end AgentForge.Cost
