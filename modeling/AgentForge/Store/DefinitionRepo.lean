import AgentForge.Engine.Operation
import AgentForge.Library.Interleaving

/-!
# The definition repository

`register` statement by statement, as a database under `READ COMMITTED` runs it.
Reads see what is committed at their own moment.  The update that deactivates
the versions of a name fixes its rows when it begins, waits until nobody else
has written them, and never sees a row that was committed in between; its writes
and the new row appear when the transaction commits.
-/

namespace AgentForge.Store

open Domain Engine Library

/-- A definition with the fields that only the repository reads. -/
structure Template extends WorkflowDefinition where
  name : String
  description : String := ""

/-- The primary key of the table of definitions. -/
structure RowKey where
  tenantId : String
  workflowId : String
  version : String
  deriving DecidableEq

/-- `WorkflowDefinitionRow`.  Its other columns repeat those of the definition. -/
structure DefinitionRow where
  tenantId : String
  definition : Template
  checksum : String
  isActive : Bool := true

namespace DefinitionRow

variable (row : DefinitionRow)

def key : RowKey :=
  ⟨row.tenantId, row.definition.workflowId, row.definition.version⟩

/-- The row belongs to a name of a tenant. -/
def named (tenantId name : String) : Bool :=
  row.tenantId = tenantId && row.definition.name = name

/-- The primary key or `uq_defn_name_version` forbids both rows. -/
def clashes (other : DefinitionRow) : Bool :=
  row.key = other.key ||
    (other.named row.tenantId row.definition.name &&
      row.definition.version = other.definition.version)

end DefinitionRow

/-- The statements of `register`.  The update is two of them, its beginning and
the moment when it has all its rows. -/
inductive RegisterOp
  | get (key : RowKey)
  | beginUpdate (tenantId name : String)
  | finishUpdate
  | insert (row : DefinitionRow)
  | commit
  | rollback

/-- The type of the responses to an operation. -/
abbrev RegisterOp.Result : RegisterOp → Type
  | .get _ => Option DefinitionRow
  | .beginUpdate _ _ => Unit
  | .finishUpdate => Except Exn Unit
  | .insert _ => Except Exn Unit
  | .commit => Except Exn Unit
  | .rollback => Unit

abbrev RegisterCode := Program RegisterOp RegisterOp.Result Exn

namespace RegisterCode

/-- Perform an operation that may fail. -/
def raising {α : Type} : Except Exn α → RegisterCode α
  | .ok value => .done value
  | .error failure => .raise failure

def get (key : RowKey) : RegisterCode (Option DefinitionRow) :=
  Program.call (RegisterOp.get key)

def beginUpdate (tenantId name : String) : RegisterCode Unit :=
  Program.call (RegisterOp.beginUpdate tenantId name)

def finishUpdate : RegisterCode Unit := do
  raising (← Program.call .finishUpdate)

def insert (row : DefinitionRow) : RegisterCode Unit := do
  raising (← Program.call (.insert row))

def commit : RegisterCode Unit := do
  raising (← Program.call .commit)

def rollback : RegisterCode Unit :=
  Program.call RegisterOp.rollback

end RegisterCode

/-- `register`.  Leaving the block of the session commits, or rolls back when an
exception leaves it. -/
def register (checksum : Template → String) (tenantId : String) (definition : Template)
    (activate : Bool) : RegisterCode Template := do
  match ← RegisterCode.get ⟨tenantId, definition.workflowId, definition.version⟩ with
  | some existing =>
      if existing.checksum ≠ checksum definition then
        RegisterCode.rollback
        .raise (.configurationError (definition.workflowId ++ " v" ++ definition.version ++
          " already registered with different content — bump the version"))
      else
        RegisterCode.commit
        pure definition
  | none =>
      if activate then
        RegisterCode.beginUpdate tenantId definition.name
        RegisterCode.finishUpdate
      RegisterCode.insert
        { tenantId := tenantId, definition := definition, checksum := checksum definition,
          isActive := activate }
      RegisterCode.commit
      pure definition

/-! ## Transactions -/

/-- An update of a transaction under way: what it asks for, the rows that it has
found, and whether it has written them. -/
structure Deactivation where
  tenantId : String
  name : String
  found : List RowKey
  written : Bool := false

/-- The update writes the row. -/
def Deactivation.writes (update : Deactivation) (row : DefinitionRow) : Bool :=
  update.written && row.named update.tenantId update.name && row.key ∈ update.found

/-- What a transaction has done so far. -/
structure Transaction where
  update : Option Deactivation := none
  inserted : Option DefinitionRow := none

/-- The row as the transaction leaves it. -/
def Transaction.deactivate (transaction : Transaction) (row : DefinitionRow) : DefinitionRow :=
  if transaction.update.any fun update => update.writes row then { row with isActive := false }
  else row

/-- A call of `register`, and how far it has come. -/
inductive Stage
  | begun
  | registered
  | absent
  | updating
  | updated
  | inserted
  | ended
  deriving DecidableEq

structure Registration where
  txn : Nat
  tenantId : String
  definition : Template
  activate : Bool
  stage : Stage := .begun

def Registration.track (call : Registration) (op : RegisterOp) (response : op.Result) :
    Registration :=
  { call with stage := next op response }
where
  next : (op : RegisterOp) → op.Result → Stage
    | .get _, some _ => .registered
    | .get _, none => .absent
    | .beginUpdate _ _, _ => .updating
    | .finishUpdate, .ok _ => .updated
    | .insert _, .ok _ => .inserted
    | _, _ => .ended

/-- The committed rows and the transactions under way; and, of every name, the
definition of the last call with `activate` that has returned. -/
structure DefinitionWorld where
  rows : List DefinitionRow := []
  transactions : Dict Nat Transaction := Dict.empty
  latest : String → String → Option Template := fun _ _ => none

namespace DefinitionWorld

variable (world : DefinitionWorld)

/-- The active rows of a name. -/
def active (tenantId name : String) : List DefinitionRow :=
  world.rows.filter fun row => row.named tenantId name && row.isActive

/-- The results of `get_active`: of several active rows, any may come first. -/
def getActive (tenantId name : String) : Option Template → Prop
  | none => world.active tenantId name = []
  | some definition => definition ∈ (world.active tenantId name).map DefinitionRow.definition

/-- The rows that an update of a name finds. -/
def keysOf (tenantId name : String) : List RowKey :=
  (world.rows.filter fun row => row.named tenantId name).map DefinitionRow.key

def transaction (txn : Nat) : Transaction :=
  (world.transactions.get? txn).getD {}

/-- The other transactions. -/
def others (txn : Nat) : List Transaction :=
  (world.transactions.entries.filter fun entry => entry.1 ≠ txn).map Prod.snd

/-- Nobody else has written the rows that the update of a transaction has found. -/
def unlocked (txn : Nat) : Bool :=
  (world.transaction txn).update.all fun update => update.found.all fun key =>
    (world.others txn).all fun other => other.update.all fun written =>
      !(written.written && key ∈ written.found)

/-- No row, committed or about to be, clashes with a new one. -/
def admitsRow (txn : Nat) (row : DefinitionRow) : Bool :=
  (world.rows.all fun other => !row.clashes other) &&
    (world.others txn).all fun other => other.inserted.all fun inserted => !row.clashes inserted

def wrote (txn : Nat) (transaction : Transaction) : DefinitionWorld :=
  { world with transactions := world.transactions.set txn transaction }

/-- The beginning of an update. -/
def beginUpdate (txn : Nat) (tenantId name : String) : DefinitionWorld :=
  world.wrote txn { world.transaction txn with
    update := some { tenantId := tenantId, name := name, found := world.keysOf tenantId name } }

/-- The update has written its rows. -/
def finishUpdate (txn : Nat) : DefinitionWorld :=
  world.wrote txn { world.transaction txn with
    update := (world.transaction txn).update.map fun update => { update with written := true } }

def insert (txn : Nat) (row : DefinitionRow) : DefinitionWorld :=
  world.wrote txn { world.transaction txn with inserted := some row }

def rollback (txn : Nat) : DefinitionWorld :=
  world.wrote txn {}

/-- The call has returned. -/
def returned (call : Registration) : String → String → Option Template :=
  if call.activate then
    fun tenantId name =>
      if tenantId = call.tenantId ∧ name = call.definition.name then some call.definition
      else world.latest tenantId name
  else
    world.latest

def commit (call : Registration) : DefinitionWorld :=
  { world.rollback call.txn with
    rows := world.rows.map (world.transaction call.txn).deactivate ++
      (world.transaction call.txn).inserted.toList
    latest := world.returned call }

/-- The answers to the statements of a call.  While an update or an insertion
waits for another transaction there is none; a statement that fails ends the
transaction. -/
def answers (call : Registration) : (op : RegisterOp) → op.Result → DefinitionWorld → Prop
  | .get key, found, next => found = world.rows.find? (fun row => row.key = key) ∧ next = world
  | .beginUpdate tenantId name, _, next => next = world.beginUpdate call.txn tenantId name
  | .finishUpdate, response, next =>
      (response = .ok () ∧ world.unlocked call.txn = true ∧ next = world.finishUpdate call.txn) ∨
        ∃ failure, response = .error failure ∧ next = world.rollback call.txn
  | .insert row, response, next =>
      (response = .ok () ∧ world.admitsRow call.txn row = true ∧
        next = world.insert call.txn row) ∨
        ∃ failure, response = .error failure ∧ next = world.rollback call.txn
  | .commit, response, next =>
      (response = .ok () ∧ next = world.commit call) ∨
        ∃ failure, response = .error failure ∧ next = world.rollback call.txn
  | .rollback, _, next => next = world.rollback call.txn

/-- The answer to every statement that need not wait. -/
def answer (call : Registration) : (op : RegisterOp) → op.Result × DefinitionWorld
  | .get key => (world.rows.find? fun row => row.key = key, world)
  | .beginUpdate tenantId name => ((), world.beginUpdate call.txn tenantId name)
  | .finishUpdate => (.ok (), world.finishUpdate call.txn)
  | .insert row => (.ok (), world.insert call.txn row)
  | .commit => (.ok (), world.commit call)
  | .rollback => ((), world.rollback call.txn)

/-- The statement need not wait. -/
def ready (call : Registration) : RegisterOp → Bool
  | .finishUpdate => world.unlocked call.txn
  | .insert row => world.admitsRow call.txn row
  | _ => true

theorem answers_answer (call : Registration) (op : RegisterOp)
    (isReady : world.ready call op = true) :
    world.answers call op (world.answer call op).1 (world.answer call op).2 := by
  cases op with
  | get key => exact ⟨rfl, rfl⟩
  | beginUpdate | rollback => rfl
  | finishUpdate => exact .inl ⟨rfl, isReady, rfl⟩
  | insert row => exact .inl ⟨rfl, isReady, rfl⟩
  | commit => exact .inl ⟨rfl, rfl⟩

end DefinitionWorld

/-- Any number of calls side by side, in transactions of their own. -/
def registering (checksum : Template → String) :
    Pool.Rules DefinitionWorld Registration RegisterOp RegisterOp.Result Exn Template where
  answers := fun call world => world.answers call
  track := Registration.track
  admits := fun i call code => ∃ tenantId definition activate,
    call = { txn := i, tenantId := tenantId, definition := definition, activate := activate } ∧
      code = register checksum tenantId definition activate

end AgentForge.Store
