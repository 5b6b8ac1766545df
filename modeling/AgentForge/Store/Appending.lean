import AgentForge.Library.Interleaving
import AgentForge.Store.EventStore

/-!
# The transaction of an append

`_commit` statement by statement, as a database under `READ COMMITTED` runs it.
A read sees what is committed at its moment, and the writes of its own
transaction.  An insertion waits while another transaction has inserted a row of
the same number and fails once one is committed; what a transaction has written
appears when it commits.  Every statement may fail, which ends the transaction.
-/

namespace AgentForge.Store

open Domain Events Library

/-- The statements of `_commit`; those that write the derived rows are one. -/
inductive AppendOp
  | guard
  | maxSequence
  | insert (events : List Event)
  | project
  | refreshDerived (inst : WorkflowInstance)
  | commit
  | rollback

/-- The type of the responses to an operation.  An insertion says whether the
numbers were unique. -/
abbrev AppendOp.Result : AppendOp → Type
  | .maxSequence => Nat
  | .insert _ => Except StoreError Bool
  | .project => Except StoreError WorkflowInstance
  | .rollback => Unit
  | _ => Except StoreError Unit

abbrev AppendCode := Program AppendOp AppendOp.Result StoreError

/-- Go on after a statement that may fail. -/
def AppendCode.raising {α : Type} : Except StoreError α → AppendCode α
  | .ok value => .done value
  | .error failure => .raise failure

/-- The arguments of `_commit`. -/
structure Append where
  instanceId : String
  tenantId : String
  events : List Event
  expectedVersion : Nat
  nextWakeupAt : Option Time := none

/-- `_commit`.  A missing guard is one that passes. -/
def Append.commit (call : Append) : AppendCode (Nat × List Event) := do
  if call.events.any fun event => event.owner ≠ (call.instanceId, call.tenantId) then
    .raise (.eventStream "event instance_id/tenant_id mismatch")
  else
    AppendCode.raising (← Program.call .guard)
    let current ← Program.call .maxSequence
    if current ≠ call.expectedVersion then
      Program.call AppendOp.rollback
      .raise (.conflict
        s!"instance {call.instanceId}: expected v{call.expectedVersion}, found v{current}")
    else if ← AppendCode.raising (← Program.call (.insert call.events)) then
      let inst ← AppendCode.raising (← Program.call .project)
      AppendCode.raising (← Program.call (.refreshDerived inst))
      AppendCode.raising (← Program.call .commit)
      match call.events.getLast? with
      | none => .raise .indexError
      | some last => pure (last.sequence, call.events)
    else
      .raise (.conflict
        s!"instance {call.instanceId}: concurrent append at v{call.expectedVersion}")

/-! ## Transactions -/

/-- How far a call has come. -/
inductive AppendStage
  | begun
  | checked
  | inserted
  | projected (inst : WorkflowInstance)
  | refreshed

/-- A call in its transaction. -/
structure Writer extends Append where
  txn : Nat
  stage : AppendStage := .begun

def Writer.track (writer : Writer) : (op : AppendOp) → op.Result → Writer
  | .guard, .ok _ => writer
  | .maxSequence, current =>
      { writer with stage := if current = writer.expectedVersion then .checked else .begun }
  | .insert _, .ok true => { writer with stage := .inserted }
  | .project, .ok inst => { writer with stage := .projected inst }
  | .refreshDerived _, .ok _ => { writer with stage := .refreshed }
  | _, _ => { writer with stage := .begun }

/-- The committed tables; of every transaction under way, the rows it has inserted
and the derived tables as it has written them; and a record of the commits. -/
structure AppendWorld where
  store : EventStore := {}
  pending : Nat → EventStore := fun _ => {}
  commits : List Append := []

namespace AppendWorld

variable (world : AppendWorld)

def write (txn : Nat) (pending : EventStore) : AppendWorld :=
  { world with pending := Function.update world.pending txn pending }

/-- The tables as a transaction sees them after its insertion. -/
def seenBy (txn : Nat) : EventStore :=
  { world.store with events := world.store.events ++ (world.pending txn).events }

def commit (writer : Writer) : AppendWorld :=
  { world.write writer.txn {} with
    store := { world.pending writer.txn with events := (world.seenBy writer.txn).events }
    commits := world.commits ++ [writer.toAppend] }

/-- No other row of the instance, committed or not, has the number of the event. -/
def Free (writer : Writer) (event : Event) : Prop :=
  event.sequence ∉ (world.store.rowsOf writer.instanceId).map Event.sequence ∧
    ∀ other ≠ writer.txn, event.sequence ∉ (world.pending other).events.map Event.sequence

/-- The answers to the statements of a call. -/
def answers (writer : Writer) : (op : AppendOp) → op.Result → AppendWorld → Prop
  | .guard, .ok _, next => next = world
  | .maxSequence, current, next =>
      current = world.store.maxSequence writer.instanceId ∧ next = world
  | .insert events, .ok true, next =>
      (∀ event ∈ events, world.Free writer event) ∧
        next = world.write writer.txn { events := events }
  | .project, .ok inst, next =>
      (world.seenBy writer.txn).project writer.instanceId writer.tenantId = .ok (some inst) ∧
        next = world
  | .refreshDerived inst, .ok _, next => ∃ derived,
      (world.seenBy writer.txn).refreshDerived writer.instanceId inst writer.events
        writer.nextWakeupAt = .ok derived ∧
      next = world.write writer.txn { derived with events := writer.events }
  | .commit, .ok _, next => next = world.commit writer
  | _, _, next => next = world.write writer.txn {}

end AppendWorld

/-- Any number of calls on one instance, in transactions of their own, with
batches that are numbered from the version they expect: `append` checks this, and
`append_new` makes it so. -/
def appending (instanceId : String) :
    Pool.Rules AppendWorld Writer AppendOp AppendOp.Result StoreError (Nat × List Event) where
  answers := fun writer world => world.answers writer
  track := Writer.track
  admits := fun i writer code => ∃ call : Append, call.instanceId = instanceId ∧
    call.events ≠ [] ∧ call.events.map Event.sequence =
      List.range' (1 + call.expectedVersion) call.events.length ∧
    writer = { toAppend := call, txn := i } ∧ code = call.commit

end AgentForge.Store
