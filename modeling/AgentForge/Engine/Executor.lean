import AgentForge.Engine.Operation

/-!
# Step runners and the step executor

A runner is an arbitrary program over the surface of `StepContext`: model calls,
side effects, charges, review requests, the clock, and whatever else it talks
to.  `interpret` executes it with the context's bookkeeping; the executor bounds
it by a timeout and classifies how it ended.
-/

namespace AgentForge.Engine

open Domain Events Library

/-! ## Runners -/

inductive RunnerOp
  | llm (request : LLMRequest)
  | charge (entry : CostEntry)
  | executeEffect (effectName : String) (params : JsonDict) (provider : String)
  | requestReview (review : ReviewRequest)
  | now
  | external (query : Json)

@[reducible]
def RunnerOp.Result : RunnerOp → Type
  | .llm _ => Except Exn LLMResponse
  | .charge _ => Unit
  | .executeEffect .. => Except Exn JsonDict
  | .requestReview _ => Unit
  | .now => Time
  | .external _ => Except Exn Json

structure StepResult where
  output : JsonDict
  modelUsed : Option String := none

/-- The fixed part of a `StepContext`. -/
structure StepContext where
  instanceId : String
  tenantId : String
  stepId : String
  agentType : String
  attempt : Nat
  inputs : JsonDict
  instanceContext : JsonDict
  hasGuard : Bool
  hasLlmClient : Bool
  budget : Option BudgetView := none
  replayLlm : List LLMRecording := []

/-- The part of a `StepContext` that calls change. -/
structure ContextState where
  charges : List CostEntry := []
  effects : List EffectOutcome := []
  review : Option ReviewRequest := none
  llmIndex : Nat := 0
  llmRecordings : List LLMRecording := []

abbrev RunnerCode := Program RunnerOp RunnerOp.Result Exn StepResult

abbrev Runner := StepContext → RunnerCode

/-- What a worker is wired with. -/
structure Config where
  registry : String → Option Runner
  hasSideEffects : Bool := true
  hasLlm : Bool := true
  budget : Option (Option Rat) := none
  digestMessages : Option String → List LLMMessage → String

/-! ## The context's operations -/

/-- `_recording_from_response`. -/
def recordingFromResponse (response : LLMResponse) : RecordedResponse :=
  { modelId := response.modelId, text := response.text, tokensInput := response.tokensInput,
    tokensOutput := response.tokensOutput, stopReason := response.stopReason,
    toolCalls := response.toolCalls }

/-- `_response_from_recording`. -/
def responseFromRecording (recorded : RecordedResponse) : LLMResponse :=
  { modelId := recorded.modelId, text := recorded.text, toolCalls := recorded.toolCalls,
    tokensInput := recorded.tokensInput, tokensOutput := recorded.tokensOutput,
    stopReason := recorded.stopReason, replayed := true }

/-- A billed completion enters the charges and the recordings. -/
def ContextState.recordCompletion (state : ContextState) (config : Config)
    (request : LLMRequest) (completion : LLMCompletion) : ContextState :=
  let response := completion.response
  { state with
    charges := state.charges ++
      [{ amountUsd := completion.costUsd, model := response.modelId,
         tokensInput := response.tokensInput, tokensOutput := response.tokensOutput }]
    llmRecordings := state.llmRecordings ++
      [{ requestDigest := config.digestMessages request.system request.messages,
         model := response.modelId, response := recordingFromResponse response,
         tokensInput := response.tokensInput, tokensOutput := response.tokensOutput,
         costUsd := completion.costUsd }] }

/-- `StepContext.llm`: replay a recorded response, or call the client. -/
def StepContext.llm (ctx : StepContext) (config : Config) (request : LLMRequest)
    (state : ContextState) : Code (Except Exn LLMResponse × ContextState) :=
  let index := state.llmIndex
  let state := { state with llmIndex := index + 1 }
  match ctx.replayLlm[index]? with
  | some recording => pure (.ok (responseFromRecording recording.response), state)
  | none =>
      if ctx.hasLlmClient then do
        let taskType := if request.taskType = "" then ctx.agentType else request.taskType
        match ← Code.completeLLM ⟨ctx.stepId, ctx.attempt, index⟩
          { request with taskType := taskType } ctx.budget with
        | .error failure => pure (.error failure, state)
        | .ok completion =>
            pure (.ok completion.response, state.recordCompletion config request completion)
      else
        pure (.error (.configurationError
          "step attempted an LLM call but no LLMClient is wired"), state)

/-- `StepContext.execute_effect`. -/
def StepContext.executeEffect (ctx : StepContext) (effectName : String) (params : JsonDict)
    (provider : String) (state : ContextState) : Code (Except Exn JsonDict × ContextState) :=
  if ctx.hasGuard then do
    match ← Code.executeEffect ctx.stepId effectName params provider with
    | .error failure => pure (.error failure, state)
    | .ok outcome =>
        pure (.ok outcome.result, { state with effects := state.effects ++ [outcome] })
  else
    pure (.error (.configurationError
      "step attempted a side effect but no SideEffectGuard is wired"), state)

/-! ## Attempts -/

/-- How a runner ended. -/
inductive Ended
  | returned (result : StepResult)
  | raised (failure : Exn)
  | timedOut

/-- Execute a runner under a deadline.  The deadline can strike wherever the
runner waits for somebody else. -/
def interpret (config : Config) (ctx : StepContext) (timeoutSeconds : Nat) :
    RunnerCode → ContextState → Code (Ended × ContextState)
  | .done result, state => pure (.returned result, state)
  | .raise failure, state => pure (.raised failure, state)
  | .perform (.llm request) next, state => do
      if ← Code.deadlinePassed timeoutSeconds then pure (.timedOut, state)
      else
        let (response, state) ← ctx.llm config request state
        interpret config ctx timeoutSeconds (next response) state
  | .perform (.charge entry) next, state =>
      interpret config ctx timeoutSeconds (next ())
        { state with charges := state.charges ++ [entry] }
  | .perform (.executeEffect effectName params provider) next, state => do
      if ← Code.deadlinePassed timeoutSeconds then pure (.timedOut, state)
      else
        let (response, state) ← ctx.executeEffect effectName params provider state
        interpret config ctx timeoutSeconds (next response) state
  | .perform (.requestReview review) next, state =>
      interpret config ctx timeoutSeconds (next ()) { state with review := some review }
  | .perform .now next, state => do
      let now ← Code.now
      interpret config ctx timeoutSeconds (next now) state
  | .perform (.external query) next, state => do
      if ← Code.deadlinePassed timeoutSeconds then pure (.timedOut, state)
      else
        let response ← Code.external query
        interpret config ctx timeoutSeconds (next response) state

/-- `RETRYABLE_BY_NAME`. -/
def retryableByName : List String :=
  ["LLMTimeoutError", "RateLimitError", "MalformedOutputError", "StepTimeoutError",
    "ConflictError", "ConnectionError", "TimeoutError"]

/-- `_classify`. -/
def classify (failure : Exn) : Bool :=
  if failure.isAgentForgeError then failure.retryable else failure.typeName ∈ retryableByName

def timeoutFailure (timeoutSeconds : Nat) (state : ContextState) : StepOutcome :=
  .failure
    { errorType := "StepTimeoutError", errorMessage := s!"step exceeded {timeoutSeconds}s",
      retryable := true, charges := state.charges, effects := state.effects,
      llmRecordings := [] }

/-- The outcome of an ended runner; a cancellation is passed on. -/
def outcomeOf (timeoutSeconds : Nat) : Ended → ContextState → Code StepOutcome
  | .timedOut, state => pure (timeoutFailure timeoutSeconds state)
  | .raised failure, state =>
      match failure.exnClass with
      | .timeout => pure (timeoutFailure timeoutSeconds state)
      | .cancelled => .raise failure
      | _ => pure (.failure
          { errorType := failure.typeName,
            errorMessage := if failure.message = "" then failure.typeName else failure.message,
            retryable := classify failure, charges := state.charges, effects := state.effects,
            llmRecordings := state.llmRecordings })
  | .returned result, state => pure (.success
      { output := result.output, modelUsed := result.modelUsed, charges := state.charges,
        effects := state.effects, review := state.review,
        llmRecordings := state.llmRecordings })

/-- `StepExecutor.run_attempt`. -/
def runAttempt (config : Config) (ctx : StepContext) (timeoutSeconds : Nat) :
    Code StepOutcome :=
  match config.registry ctx.agentType with
  | none => .raise (.configurationError
      ("no step runner registered for agent_type '" ++ ctx.agentType ++ "'"))
  | some runner => do
      let (ended, state) ← interpret config ctx timeoutSeconds (runner ctx) {}
      outcomeOf timeoutSeconds ended state

end AgentForge.Engine
