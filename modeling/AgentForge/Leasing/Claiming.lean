import AgentForge.Leasing.LeaseStore
import AgentForge.Library.Interleaving
import Mathlib.Algebra.Order.Ring.Rat
import Mathlib.Data.Nat.Cast.Order.Ring

/-!
# The transaction of a claim

`acquire_runnable` statement by statement, as a database under `READ COMMITTED`
runs it.  The claim reads a snapshot of the lease table, then locks the index
rows it has found one by one and skips those that are locked at that moment;
each upsert acts on the lease row of its own moment, and what is written is seen
by others, and the locks are given back, when the transaction commits.
-/

namespace AgentForge.Leasing

open Domain Engine Library Store

/-- The statements of a claim, and a look at the clock. -/
inductive ClaimOp
  | now
  | select (now : Time)
  | lock (instanceId : String)
  | upsert (workerId : String) (now : Time) (row : IndexRow)
  | commit

/-- The type of the responses to an operation. -/
abbrev ClaimOp.Result : ClaimOp → Type
  | .now => Time
  | .select _ => List IndexRow
  | .lock _ => Bool
  | .upsert _ _ _ => Nat
  | .commit => Unit

abbrev ClaimCode := Program ClaimOp ClaimOp.Result Exn

/-- `FOR UPDATE SKIP LOCKED` with a limit, over the rows that the claim has found. -/
def lockRows : Nat → List IndexRow → ClaimCode (List IndexRow)
  | 0, _ => pure []
  | _ + 1, [] => pure []
  | limit + 1, row :: rest => do
      if ← Program.call (.lock row.instanceId) then
        let rows ← lockRows limit rest
        pure (row :: rows)
      else
        lockRows (limit + 1) rest

/-- The upsert of one row, with the lease it grants. -/
def upsertRow (ttl : Time) (workerId : String) (now : Time) (row : IndexRow) :
    ClaimCode FencedLease := do
  let fence ← Program.call (.upsert workerId now row)
  pure
    { instanceId := row.instanceId, tenantId := row.tenantId, workflowId := row.workflowId,
      workflowVersion := row.workflowVersion, workerId := workerId, fenceToken := fence,
      expiresAt := now + ttl, lastSequence := row.lastSequence }

/-- `acquire_runnable`. -/
def acquireRunnable (ttl : Time) (workerId : String) (limit : Int) (now : Time) :
    ClaimCode (List FencedLease) :=
  if limit ≤ 0 then
    pure []
  else do
    let found ← Program.call (.select now)
    let rows ← lockRows limit.toNat found
    let leases ← Program.traverse (upsertRow ttl workerId now) rows
    Program.call ClaimOp.commit
    pure leases

/-- A worker looks at the clock and claims. -/
def claim (ttl : Time) (workerId : String) (limit : Int) : ClaimCode (List FencedLease) := do
  let now ← Program.call .now
  acquireRunnable ttl workerId limit now

/-- The committed tables, the locks and writes of the transactions under way,
and records of what commits have granted and replaced. -/
structure ClaimWorld where
  clock : Time
  index : Dict String IndexRow
  leases : Leases
  locks : String → Option Nat := fun _ => none
  snapshots : Nat → Leases := fun _ => Dict.empty
  written : Nat → List (String × LeaseRow) := fun _ => []
  grants : List (String × LeaseRow) := []
  replaced : List (LeaseRow × LeaseRow) := []

namespace ClaimWorld

variable (world : ClaimWorld) (txn : Nat)

/-- The claim meets an index row and the lease row next to it. -/
def claims (now : Time) (row : IndexRow) : Bool :=
  claimable now row (world.leases.get? row.instanceId)

/-- The row is locked by the transaction. -/
def locked (instanceId : String) : ClaimWorld :=
  { world with locks := Function.update world.locks instanceId (some txn) }

def upserted (ttl : Time) (workerId : String) (now : Time) (row : IndexRow) : LeaseRow :=
  claimedRow ttl workerId now row (world.leases.get? row.instanceId)

/-- The transaction has written a row. -/
def wrote (entry : String × LeaseRow) : ClaimWorld :=
  { world with written := Function.update world.written txn (world.written txn ++ [entry]) }

/-- The transaction has committed. -/
def committed : ClaimWorld :=
  { world with
    leases := world.leases.update (world.written txn)
    locks := fun instanceId =>
      if world.locks instanceId = some txn then none else world.locks instanceId
    written := Function.update world.written txn []
    grants := world.grants ++ world.written txn
    replaced := world.replaced ++ (world.written txn).filterMap fun entry =>
      (world.leases.get? entry.1).map fun old => (old, entry.2) }

/-- The answers to the operations of a transaction.  Workers look at one clock,
and the order of the rows that a claim finds is left open. -/
def answers (ttl : Time) : (op : ClaimOp) → op.Result → ClaimWorld → Prop
  | .now, now, next => world.clock ≤ now ∧ next = { world with clock := now }
  | .select now, found, next =>
      (found.map IndexRow.instanceId).Nodup ∧
        (∀ row, row ∈ found ↔
          world.index.get? row.instanceId = some row ∧ world.claims now row = true) ∧
        next = { world with snapshots := Function.update world.snapshots txn world.leases }
  | .lock instanceId, isFree, next =>
      isFree = (world.locks instanceId).isNone ∧
        next = if isFree then world.locked txn instanceId else world
  | .upsert workerId now row, fence, next =>
      fence = (world.upserted ttl workerId now row).fenceToken ∧
        next = world.wrote txn (row.instanceId, world.upserted ttl workerId now row)
  | .commit, _, next => next = world.committed txn

/-- The answer to every operation, when a chosen number of seconds passes before
each look at the clock. -/
def answer (ttl : Time) (pause : Nat) : (op : ClaimOp) → op.Result × ClaimWorld
  | .now => (world.clock + pause, { world with clock := world.clock + pause })
  | .select now =>
      (world.index.values.filter (world.claims now),
        { world with snapshots := Function.update world.snapshots txn world.leases })
  | .lock instanceId =>
      if (world.locks instanceId).isNone then (true, world.locked txn instanceId)
      else (false, world)
  | .upsert workerId now row =>
      ((world.upserted ttl workerId now row).fenceToken,
        world.wrote txn (row.instanceId, world.upserted ttl workerId now row))
  | .commit => ((), world.committed txn)

/-- Index rows are stored under their own keys. -/
def indexed : Bool :=
  world.index.entries.all fun entry => entry.2.instanceId = entry.1

private theorem map_instanceId_values (indexed : world.indexed = true) :
    world.index.values.map IndexRow.instanceId = world.index.keys := by
  unfold Dict.values Dict.keys
  rw [List.map_map]
  refine List.map_congr_left fun entry member => ?_
  exact decide_eq_true_eq.mp (List.all_eq_true.mp indexed entry member)

theorem answers_answer (isIndexed : world.indexed = true) (ttl : Time) (pause : Nat)
    (op : ClaimOp) : world.answers txn ttl op (world.answer txn ttl pause op).1
      (world.answer txn ttl pause op).2 := by
  cases op with
  | now =>
    have forward : (0 : Time) ≤ pause := Nat.cast_nonneg pause
    exact ⟨le_add_of_nonneg_right forward, rfl⟩
  | select now =>
    refine ⟨?_, ?_, rfl⟩
    · have distinct : (world.index.values.map IndexRow.instanceId).Nodup := by
        rw [world.map_instanceId_values isIndexed]
        exact world.index.nodup
      exact distinct.sublist (List.filter_sublist.map _)
    · intro row
      change row ∈ world.index.values.filter (world.claims now) ↔ _
      rw [List.mem_filter, Dict.mem_values_iff]
      refine and_congr_left fun _ => ⟨?_, fun stored => ⟨_, stored⟩⟩
      rintro ⟨key, stored⟩
      have own := List.all_eq_true.mp isIndexed _ (Dict.get?_eq_some_iff.mp stored)
      rwa [decide_eq_true_eq.mp own]
  | lock instanceId =>
    simp only [answers, answer]
    by_cases isFree : (world.locks instanceId).isNone = true
    · simp [isFree]
    · simp [isFree]
  | upsert workerId now row => exact ⟨rfl, rfl⟩
  | commit => rfl

end ClaimWorld

/-- What the thread of a claim knows: its transaction and worker, the time it
has looked up, the instances it has found and those it has locked. -/
structure ClaimNotes where
  txn : Nat
  workerId : String
  now : Option Time := none
  found : List String := []
  held : List String := []

def ClaimNotes.track (notes : ClaimNotes) : (op : ClaimOp) → op.Result → ClaimNotes
  | .now, now => { notes with now := some now }
  | .select _, found => { notes with found := found.map IndexRow.instanceId }
  | .lock instanceId, isFree =>
      if isFree then { notes with held := instanceId :: notes.held } else notes
  | .upsert _ _ _, _ => notes
  | .commit, _ => { notes with held := [] }

/-- Any number of claims side by side, in transactions of their own. -/
def claiming (ttl : Time) :
    Pool.Rules ClaimWorld ClaimNotes ClaimOp ClaimOp.Result Exn (List FencedLease) where
  answers := fun notes world => world.answers notes.txn ttl
  track := ClaimNotes.track
  admits := fun i notes code => ∃ workerId limit,
    notes = { txn := i, workerId := workerId } ∧ code = claim ttl workerId limit

end AgentForge.Leasing
