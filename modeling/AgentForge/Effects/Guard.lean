import AgentForge.Engine.Operation

/-!
# The side-effect guard

External actions go through the guard: it claims a row of the outbox by an
idempotency key, asks the provider and marks the row.  A rollback undoes the
executed rows of an instance, most recent first.  Both are programs over the
awaits of the source: the outbox statements and the calls of providers, so a
process may die, and other processes may interfere, at each of them.  The time
stamps of the rows are left out.
-/

namespace AgentForge.Effects

open Domain Engine Events Library

/-! ## Data -/

inductive EffectStatus
  | pending
  | executed
  | failed
  | compensated
  deriving DecidableEq, Repr

structure EffectRequest where
  effectName : String
  params : JsonDict
  idempotencyKey : String
  instanceId : String
  tenantId : String
  stepId : String

structure EffectResult where
  ok : Bool
  data : JsonDict := Dict.empty
  providerRef : Option String := none
  error : Option String := none

structure OutboxEntry where
  idempotencyKey : String
  instanceId : String
  tenantId : String
  stepId : String
  effectName : String
  provider : String
  params : JsonDict
  guarantee : Guarantee := .atLeastOnceDedup
  status : EffectStatus := .pending
  attempts : Nat := 0
  result : Option JsonDict := none
  providerRef : Option String := none
  error : Option String := none
  compensationStatus : Option String := none

/-- The result a row has recorded. -/
def OutboxEntry.recorded (row : OutboxEntry) : EffectResult where
  ok := true
  data := row.result.getD Dict.empty
  providerRef := row.providerRef

/-- The updates that `mark` is called with. -/
inductive Marking
  | failed (error : Option String)
  | executed (result : JsonDict) (providerRef : Option String)
  | compensationFailed (error : String)
  | compensated

def Marking.apply : Marking → OutboxEntry → OutboxEntry
  | .failed error, row => { row with status := .failed, error := error }
  | .executed result providerRef, row =>
      { row with status := .executed, result := some result, providerRef := providerRef,
                 error := none }
  | .compensationFailed error, row =>
      { row with compensationStatus := some "failed", error := some error }
  | .compensated, row =>
      { row with status := .compensated, compensationStatus := some "done" }

/-- `EffectOutcome`. -/
structure Outcome where
  idempotencyKey : String
  effectName : String
  stepId : String
  params : JsonDict
  result : EffectResult
  deduplicated : Bool
  guarantee : Guarantee

/-- What the driver uses of an outcome. -/
def Outcome.report (outcome : Outcome) : EffectOutcome where
  idempotencyKey := outcome.idempotencyKey
  effectName := outcome.effectName
  stepId := outcome.stepId
  params := outcome.params
  result := outcome.result.data
  deduplicated := outcome.deduplicated
  guarantee := outcome.guarantee

/-! ## Operations -/

inductive GuardOp
  | claim (entry : OutboxEntry)
  | mark (key : String) (marking : Marking)
  | listForInstance (instanceId tenantId : String) (status : EffectStatus)
  | execute (provider : String) (request : EffectRequest)
  | reconcile (provider : String) (request : EffectRequest)
  | compensate (provider : String) (request : EffectRequest) (executed : EffectResult)

@[reducible]
def GuardOp.Result : GuardOp → Type
  | .claim _ => OutboxEntry
  | .mark .. => Unit
  | .listForInstance .. => List OutboxEntry
  | .execute .. => Except Exn EffectResult
  | .reconcile .. => Except Exn (Option EffectResult)
  | .compensate .. => Except Exn (Option EffectResult)

abbrev GuardCode (α : Type) := Program GuardOp GuardOp.Result Exn α

namespace GuardCode

def claim (entry : OutboxEntry) : GuardCode OutboxEntry :=
  Program.call (GuardOp.claim entry)

def mark (key : String) (marking : Marking) : GuardCode Unit :=
  Program.call (GuardOp.mark key marking)

def listForInstance (instanceId tenantId : String) (status : EffectStatus) :
    GuardCode (List OutboxEntry) :=
  Program.call (GuardOp.listForInstance instanceId tenantId status)

def execute (provider : String) (request : EffectRequest) : GuardCode (Except Exn EffectResult) :=
  Program.call (GuardOp.execute provider request)

def reconcile (provider : String) (request : EffectRequest) :
    GuardCode (Except Exn (Option EffectResult)) :=
  Program.call (GuardOp.reconcile provider request)

def compensate (provider : String) (request : EffectRequest) (executed : EffectResult) :
    GuardCode (Except Exn (Option EffectResult)) :=
  Program.call (GuardOp.compensate provider request executed)

end GuardCode

def raiseError {α : Type} : Except Exn α → GuardCode α
  | .ok value => .done value
  | .error failure => .raise failure

def sideEffectError (message : String) : Exn :=
  { exnClass := .agentForge, typeName := "SideEffectError", message := message }

/-! ## The guard -/

/-- `ActionProvider`, apart from its calls. -/
structure ActionProvider where
  supportsIdempotencyKey : String → Bool

structure SideEffectGuard where
  /-- Providers by the name they are registered under. -/
  providers : String → Option ActionProvider
  /-- The digest of instance, step, effect and parameters. -/
  digest : String → String → String → JsonDict → String

/-- The arguments of `execute`. -/
structure EffectCall where
  instanceId : String
  tenantId : String
  stepId : String
  effectName : String
  params : JsonDict
  providerName : String := "noop"

namespace SideEffectGuard

variable (guard : SideEffectGuard) (call : EffectCall)

/-- `ProviderRegistry.get`. -/
def provider (name : String) : Except Exn ActionProvider :=
  match guard.providers name with
  | some provider => .ok provider
  | none => .error (.configurationError ("no action provider registered as '" ++ name ++ "'"))

/-- `idempotency_key`. -/
def idempotencyKey : String :=
  guard.digest call.instanceId call.stepId call.effectName call.params

def request : EffectRequest where
  effectName := call.effectName
  params := call.params
  idempotencyKey := guard.idempotencyKey call
  instanceId := call.instanceId
  tenantId := call.tenantId
  stepId := call.stepId

def guaranteeOf (supportsKey : Bool) : Guarantee :=
  if supportsKey then .exactlyOnce else .atLeastOnceDedup

/-- The row that a first claim inserts. -/
def entry (supportsKey : Bool) : OutboxEntry where
  idempotencyKey := guard.idempotencyKey call
  instanceId := call.instanceId
  tenantId := call.tenantId
  stepId := call.stepId
  effectName := call.effectName
  provider := call.providerName
  params := call.params
  guarantee := guaranteeOf supportsKey

/-- Ask the provider: on a resumed attempt without key support, whether the
action has landed already; otherwise to perform it. -/
def ask (supportsKey resuming : Bool) : GuardCode EffectResult := do
  let known ←
    if resuming && !supportsKey then do
      raiseError (← GuardCode.reconcile call.providerName (guard.request call))
    else
      pure none
  match known with
  | some result => pure result
  | none => raiseError (← GuardCode.execute call.providerName (guard.request call))

/-- The part of `execute` after a claim that found nothing executed. -/
def carryOut (supportsKey resuming : Bool) : GuardCode Outcome := do
  let key := guard.idempotencyKey call
  match ← (guard.ask call supportsKey resuming).settle with
  | .error failure =>
      if failure.isException then do
        GuardCode.mark key (.failed (some failure.message))
        .raise (sideEffectError ("effect " ++ call.effectName ++ " raised: " ++ failure.message))
      else
        .raise failure
  | .ok result =>
      if result.ok then do
        GuardCode.mark key (.executed result.data result.providerRef)
        pure { idempotencyKey := key, effectName := call.effectName, stepId := call.stepId,
               params := call.params, result := result, deduplicated := false,
               guarantee := guaranteeOf supportsKey }
      else do
        GuardCode.mark key (.failed result.error)
        .raise (sideEffectError ("effect " ++ call.effectName ++ " returned not-ok: " ++
          result.error.getD "None"))

/-- What `execute` does with the row it has claimed. -/
def afterClaim (supportsKey : Bool) (row : OutboxEntry) : GuardCode Outcome :=
  let key := guard.idempotencyKey call
  match row.status with
  | .executed => pure
      { idempotencyKey := key, effectName := call.effectName, stepId := call.stepId,
        params := call.params, result := row.recorded, deduplicated := true,
        guarantee := row.guarantee }
  | .compensated => .raise (sideEffectError
      ("effect " ++ call.effectName ++ " (" ++ key ++ ") was already compensated"))
  | .pending | .failed => guard.carryOut call supportsKey (1 < row.attempts)

/-- `execute`. -/
def execute : GuardCode Outcome := do
  let provider ← raiseError (guard.provider call.providerName)
  let supportsKey := provider.supportsIdempotencyKey call.effectName
  let row ← GuardCode.claim (guard.entry call supportsKey)
  guard.afterClaim call supportsKey row

/-- The request to undo a row. -/
def undoRequest (instanceId tenantId : String) (row : OutboxEntry) : EffectRequest where
  effectName := row.effectName
  params := row.params
  idempotencyKey := row.idempotencyKey
  instanceId := instanceId
  tenantId := tenantId
  stepId := row.stepId

/-- The loop of `compensate_instance`. -/
def undo (instanceId tenantId : String) : List OutboxEntry → GuardCode (List Outcome)
  | [] => pure []
  | row :: rest => do
      let _ ← raiseError (guard.provider row.provider)
      match ← GuardCode.compensate row.provider (undoRequest instanceId tenantId row)
        row.recorded with
      | .error failure =>
          if failure.isException then do
            GuardCode.mark row.idempotencyKey (.compensationFailed failure.message)
            .raise (.compensationError
              ("compensation for " ++ row.effectName ++ " failed: " ++ failure.message))
          else
            .raise failure
      | .ok compensation => do
          GuardCode.mark row.idempotencyKey .compensated
          let others ← undo instanceId tenantId rest
          pure ({ idempotencyKey := row.idempotencyKey, effectName := row.effectName,
                  stepId := row.stepId, params := row.params,
                  result := compensation.getD { ok := true }, deduplicated := false,
                  guarantee := row.guarantee } :: others)

/-- `compensate_instance`. -/
def compensateInstance (instanceId tenantId : String) : GuardCode (List Outcome) := do
  let rows ← GuardCode.listForInstance instanceId tenantId .executed
  guard.undo instanceId tenantId rows.reverse

end SideEffectGuard

/-- Questions to a provider about an action. -/
def GuardOp.asks (request : EffectRequest) : GuardOp → Prop
  | .execute _ asked => asked = request
  | .reconcile _ asked => asked = request
  | _ => False

/-- Asking the provider is all that happens before the row is marked. -/
theorem yields_ask (guard : SideEffectGuard) (call : EffectCall) (supportsKey resuming : Bool) :
    Program.Yields (GuardOp.asks (guard.request call)) (fun _ => True)
      (guard.ask call supportsKey resuming) := by
  have raises {α : Type} (result : Except Exn α) :
      Program.Yields (GuardOp.asks (guard.request call)) (fun _ => True) (raiseError result) := by
    cases result <;> trivial
  unfold SideEffectGuard.ask
  cases (resuming && !supportsKey) with
  | false => exact ⟨rfl, fun result _ _ => raises result⟩
  | true =>
    refine ⟨rfl, ?_⟩
    rintro (failure | known) _ _
    · trivial
    · cases known with
      | none => exact ⟨rfl, fun result _ _ => raises result⟩
      | some result => trivial

/-! ## The outbox and the outside world -/

/-- The rows of the outbox in the order of their creation, the actions that
providers have performed, and the keys that were handed to `compensate`. -/
structure Outside where
  rows : Dict String OutboxEntry := Dict.empty
  landed : List EffectRequest := []
  handed : List String := []

namespace Outside

variable (outside : Outside)

/-- The row that `claim` returns: a new one, or the stored one with one more
attempt. -/
def claimed (entry : OutboxEntry) : OutboxEntry :=
  match outside.rows.get? entry.idempotencyKey with
  | none => { entry with status := .pending, attempts := 1 }
  | some row => { row with attempts := row.attempts + 1 }

def marked (key : String) (marking : Marking) : Dict String OutboxEntry :=
  match outside.rows.get? key with
  | none => outside.rows
  | some row => outside.rows.set key (marking.apply row)

/-- `list_for_instance`. -/
def listed (instanceId tenantId : String) (status : EffectStatus) : List OutboxEntry :=
  outside.rows.values.filter fun row =>
    row.instanceId = instanceId && row.tenantId = tenantId && row.status = status

/-- What may be answered.  Providers may perform an action or not and answer
anything, whether or not it has landed. -/
def answers : (op : GuardOp) → op.Result → Outside → Prop
  | .claim entry, row, next =>
      row = outside.claimed entry ∧
        next = { outside with
          rows := outside.rows.set entry.idempotencyKey (outside.claimed entry) }
  | .mark key marking, _, next => next = { outside with rows := outside.marked key marking }
  | .listForInstance instanceId tenantId status, rows, next =>
      rows = outside.listed instanceId tenantId status ∧ next = outside
  | .execute _ request, _, next =>
      next = outside ∨ next = { outside with landed := outside.landed ++ [request] }
  | .reconcile .., _, next => next = outside
  | .compensate _ request _, _, next =>
      next = { outside with handed := outside.handed ++ [request.idempotencyKey] }

/-- How the providers of one step of a schedule behave. -/
structure Behaviour where
  lands : Bool := true
  result : Except Exn EffectResult := .ok { ok := true }
  known : Except Exn (Option EffectResult) := .ok none
  undone : Except Exn (Option EffectResult) := .ok none

/-- The answer to every operation, given the behaviour of the providers. -/
def answer (behaviour : Behaviour) : (op : GuardOp) → op.Result × Outside
  | .claim entry =>
      (outside.claimed entry,
        { outside with rows := outside.rows.set entry.idempotencyKey (outside.claimed entry) })
  | .mark key marking => ((), { outside with rows := outside.marked key marking })
  | .listForInstance instanceId tenantId status =>
      (outside.listed instanceId tenantId status, outside)
  | .execute _ request =>
      (behaviour.result,
        if behaviour.lands then { outside with landed := outside.landed ++ [request] }
        else outside)
  | .reconcile .. => (behaviour.known, outside)
  | .compensate _ request _ =>
      (behaviour.undone,
        { outside with handed := outside.handed ++ [request.idempotencyKey] })

theorem answers_answer (behaviour : Behaviour) (op : GuardOp) :
    outside.answers op (outside.answer behaviour op).1 (outside.answer behaviour op).2 := by
  cases op with
  | claim | listForInstance => exact ⟨rfl, rfl⟩
  | execute name request =>
    unfold answers answer
    cases behaviour.lands with
    | true => exact .inr rfl
    | false => exact .inl rfl
  | mark | reconcile | compensate => rfl

/-- An action with the key has landed. -/
def HasLanded (key : String) : Prop :=
  ∃ request ∈ outside.landed, request.idempotencyKey = key

end Outside

end AgentForge.Effects
