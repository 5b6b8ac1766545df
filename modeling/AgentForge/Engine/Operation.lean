import AgentForge.Library.Program
import AgentForge.Store.EventStore

/-!
# What the engine asks of its surroundings

Engine code is written as programs over the operations listed here: the clock,
the identifier generator, the journal, the ledgers, the model client, the
guarded side effects and the read models.  An exception of the source is a
value of `Exn`; an operation that may raise answers with an `Except`.
-/

namespace AgentForge.Engine

open Domain Events Library Store

/-! ## Exceptions -/

/-- The exception classes that some `except` clause of the engine names. -/
inductive ExnClass
  | conflict
  | compensation
  | agentForge
  | timeout
  | cancelled
  | baseException
  | exception
  deriving DecidableEq, Repr

/-- A raised exception: its class, its type name and text, and the `retryable`
attribute of the engine's own exceptions. -/
structure Exn where
  exnClass : ExnClass
  typeName : String
  message : String
  retryable : Bool := false
  deriving DecidableEq, Repr

namespace Exn

/-- `isinstance(exc, AgentForgeError)`. -/
def isAgentForgeError (exn : Exn) : Bool :=
  match exn.exnClass with
  | .conflict | .compensation | .agentForge => true
  | _ => false

/-- `isinstance(exc, Exception)`. -/
def isException (exn : Exn) : Bool :=
  match exn.exnClass with
  | .cancelled | .baseException => false
  | _ => true

def configurationError (message : String) : Exn :=
  { exnClass := .agentForge, typeName := "ConfigurationError", message := message }

def conflictError (message : String) : Exn :=
  { exnClass := .conflict, typeName := "ConflictError", message := message, retryable := true }

def compensationError (message : String) : Exn :=
  { exnClass := .compensation, typeName := "CompensationError", message := message }

def eventStreamError (message : String) : Exn :=
  { exnClass := .agentForge, typeName := "EventStreamError", message := message }

def invalidStateTransition (message : String) : Exn :=
  { exnClass := .agentForge, typeName := "InvalidStateTransition", message := message }

def keyError (message : String) : Exn :=
  { exnClass := .exception, typeName := "KeyError", message := message }

def runtimeError (message : String) : Exn :=
  { exnClass := .exception, typeName := "RuntimeError", message := message }

/-- How an error of the fold is raised. -/
def ofFold (failure : FoldError) : Exn :=
  if failure.isInvalidTransition then invalidStateTransition failure.message
  else eventStreamError failure.message

end Exn

/-! ## Data exchanged -/

/-- The claim of a worker on an instance. -/
structure Lease where
  instanceId : String
  tenantId : String
  workflowId : String
  workflowVersion : String
  workerId : String

structure BudgetView where
  remainingWorkflowUsd : Option Rat
  remainingTenantDailyUsd : Option Rat

structure LLMMessage where
  role : String
  content : String

inductive CostTier
  | cheap
  | standard
  | premium
  | critical
  deriving DecidableEq, Repr

/-- Arguments of `StepContext.llm`. -/
structure LLMRequest where
  messages : List LLMMessage
  system : Option String := none
  tools : List JsonDict := []
  tier : CostTier := .standard
  maxTokens : Nat := 4096
  taskType : String := "general"
  expectedOutputTokens : Option Nat := none
  reliabilityFloor : Rat := 0

structure LLMResponse where
  modelId : String
  text : String
  toolCalls : List ToolCall := []
  tokensInput : Int := 0
  tokensOutput : Int := 0
  stopReason : Option String := none
  replayed : Bool := false

structure LLMCompletion where
  response : LLMResponse
  costUsd : Rat

/-- A call that reaches the model client: the step, its attempt and the position
of the call within the attempt. -/
structure ModelCall where
  stepId : String
  attempt : Nat
  index : Nat
  deriving DecidableEq, Repr

structure EffectOutcome where
  idempotencyKey : String
  effectName : String
  stepId : String
  params : JsonDict
  result : JsonDict
  deduplicated : Bool
  guarantee : Guarantee

structure CostEntry where
  amountUsd : Rat
  model : Option String := none
  tokensInput : Int := 0
  tokensOutput : Int := 0

/-- A step asking a human to sign off on its output. -/
structure ReviewRequest where
  reason : String := "low_confidence"
  confidence : Rat := 0
  recommendation : String := ""
  options : List JsonDict := []
  autoAction : String := "abort"
  timeoutSeconds : Option Int := none

structure StepSuccess where
  output : JsonDict
  modelUsed : Option String
  charges : List CostEntry
  effects : List EffectOutcome
  review : Option ReviewRequest
  llmRecordings : List LLMRecording

structure StepFailure where
  errorType : String
  errorMessage : String
  retryable : Bool
  charges : List CostEntry
  effects : List EffectOutcome
  llmRecordings : List LLMRecording

inductive StepOutcome
  | success (result : StepSuccess)
  | failure (result : StepFailure)

namespace StepOutcome

def charges : StepOutcome → List CostEntry
  | success result => result.charges
  | failure result => result.charges

def effects : StepOutcome → List EffectOutcome
  | success result => result.effects
  | failure result => result.effects

def llmRecordings : StepOutcome → List LLMRecording
  | success result => result.llmRecordings
  | failure result => result.llmRecordings

def review : StepOutcome → Option ReviewRequest
  | success result => result.review
  | failure _ => none

end StepOutcome

structure DeadLetter where
  instanceId : String
  tenantId : String
  stepId : Option String
  reason : String
  errorType : Option String
  errorMessage : Option String
  atVersion : Nat
  resolved : Bool := false

/-- Points of the code that the history of a run keeps although nothing is
stored there: the end of a step attempt, and the choice to apply the failure
policy to a step. -/
inductive Mark
  | attemptFinished (stepId : String) (attempt : Nat) (outcome : StepOutcome)
  | policyApplied (stepId : String)

/-! ## Operations -/

inductive Op
  | now
  | newId
  | getDefinition (workflowId version tenantId : String)
  | getInstance (instanceId tenantId : String) (definition : Option WorkflowDefinition)
  | appendNew (instanceId tenantId : String) (drafts : List Event) (expectedVersion : Nat)
      (guarded : Bool) (nextWakeupAt : Option Time)
  | spentToday (tenantId : String) (now : Time)
  | recordSpend (tenantId : String) (amountUsd : Rat) (now : Time)
  | deadlinePassed (timeoutSeconds : Nat)
  | completeLLM (call : ModelCall) (request : LLMRequest) (budget : Option BudgetView)
  | executeEffect (stepId effectName : String) (params : JsonDict) (provider : String)
  | external (query : Json)
  | compensateInstance (instanceId tenantId : String)
  | recordDeadLetter (row : DeadLetter)
  | getDeadLetter (dlqId : Nat)
  | resolveDeadLetter (dlqId : Nat) (tenantId : String)
  | getEscalation (escalationId : String)
  | dueEscalations (now : Time) (limit : Nat)
  | mark (mark : Mark)

/-- What an operation answers. -/
@[reducible]
def Op.Result : Op → Type
  | .now => Time
  | .newId => String
  | .getDefinition .. => Option WorkflowDefinition
  | .getInstance .. => Except Exn (Option WorkflowInstance)
  | .appendNew .. => Except Exn (Nat × List Event)
  | .spentToday .. => Rat
  | .recordSpend .. => Unit
  | .deadlinePassed _ => Bool
  | .completeLLM .. => Except Exn LLMCompletion
  | .executeEffect .. => Except Exn EffectOutcome
  | .external _ => Except Exn Json
  | .compensateInstance .. => Except Exn (List EffectOutcome)
  | .recordDeadLetter _ => Except Exn Unit
  | .getDeadLetter _ => Option DeadLetter
  | .resolveDeadLetter .. => Unit
  | .getEscalation _ => Option EscalationRow
  | .dueEscalations .. => List EscalationRow
  | .mark _ => Unit

/-- Engine code that returns a value of type `α`. -/
abbrev Code (α : Type) := Program Op Op.Result Exn α

namespace Code

def now : Code Time :=
  Program.call Op.now

def newId : Code String :=
  Program.call Op.newId

def getDefinition (workflowId version tenantId : String) : Code (Option WorkflowDefinition) :=
  Program.call (Op.getDefinition workflowId version tenantId)

def getInstance (instanceId tenantId : String) (definition : Option WorkflowDefinition) :
    Code (Except Exn (Option WorkflowInstance)) :=
  Program.call (Op.getInstance instanceId tenantId definition)

def appendNew (instanceId tenantId : String) (drafts : List Event) (expectedVersion : Nat)
    (guarded : Bool) (nextWakeupAt : Option Time) : Code (Except Exn (Nat × List Event)) :=
  Program.call (Op.appendNew instanceId tenantId drafts expectedVersion guarded nextWakeupAt)

def spentToday (tenantId : String) (now : Time) : Code Rat :=
  Program.call (Op.spentToday tenantId now)

def recordSpend (tenantId : String) (amountUsd : Rat) (now : Time) : Code Unit :=
  Program.call (Op.recordSpend tenantId amountUsd now)

def deadlinePassed (timeoutSeconds : Nat) : Code Bool :=
  Program.call (Op.deadlinePassed timeoutSeconds)

def completeLLM (modelCall : ModelCall) (request : LLMRequest) (budget : Option BudgetView) :
    Code (Except Exn LLMCompletion) :=
  Program.call (Op.completeLLM modelCall request budget)

def executeEffect (stepId effectName : String) (params : JsonDict) (provider : String) :
    Code (Except Exn EffectOutcome) :=
  Program.call (Op.executeEffect stepId effectName params provider)

def external (query : Json) : Code (Except Exn Json) :=
  Program.call (Op.external query)

def compensateInstance (instanceId tenantId : String) : Code (Except Exn (List EffectOutcome)) :=
  Program.call (Op.compensateInstance instanceId tenantId)

def recordDeadLetter (row : DeadLetter) : Code (Except Exn Unit) :=
  Program.call (Op.recordDeadLetter row)

def getDeadLetter (dlqId : Nat) : Code (Option DeadLetter) :=
  Program.call (Op.getDeadLetter dlqId)

def resolveDeadLetter (dlqId : Nat) (tenantId : String) : Code Unit :=
  Program.call (Op.resolveDeadLetter dlqId tenantId)

def getEscalation (escalationId : String) : Code (Option EscalationRow) :=
  Program.call (Op.getEscalation escalationId)

def dueEscalations (now : Time) (limit : Nat) : Code (List EscalationRow) :=
  Program.call (Op.dueEscalations now limit)

def mark (mark : Mark) : Code Unit :=
  Program.call (Op.mark mark)

end Code

/-- Raise the error of a fallible computation. -/
def lift {α : Type} : Except Exn α → Code α
  | .ok value => .done value
  | .error failure => .raise failure

end AgentForge.Engine
