import AgentForge.Library.History
import AgentForge.Leasing.LeaseStore
import AgentForge.Store.Commits
import Mathlib.Data.List.Induction
import Mathlib.Logic.Relation

/-!
# Fencing

Workers claim, extend and release leases and append under the guards of leases
they were granted, each in one transaction, in any order and with any clocks.
The history records what was granted and what was committed.  The fence tokens
of an instance only grow, its guard passes for the most recent grant alone, and
so a batch is committed only under the lease that was granted last.
-/

namespace AgentForge.Guarantees

open Domain Events Leasing Library Store

inductive Occurrence
  | granted (lease : FencedLease)
  | committed (guard : Option FencedLease) (events : List Event)

namespace Occurrence

/-- The lease that was granted on an instance. -/
def grantOn (instanceId : String) : Occurrence → Option FencedLease
  | .granted lease => if lease.instanceId = instanceId then some lease else none
  | .committed _ _ => none

/-- The lease of an instance under whose guard a batch was committed. -/
def guardOn (instanceId : String) : Occurrence → Option FencedLease
  | .granted _ => none
  | .committed guard _ => guard.filter fun lease => lease.instanceId = instanceId

def events : Occurrence → List Event
  | .granted _ => []
  | .committed _ events => events

end Occurrence

/-- The leases granted on an instance, oldest first. -/
def grantsOn (instanceId : String) (history : List Occurrence) : List FencedLease :=
  history.filterMap (Occurrence.grantOn instanceId)

/-- The leases under which batches were committed, oldest first. -/
def guardsOn (instanceId : String) (history : List Occurrence) : List FencedLease :=
  history.filterMap (Occurrence.guardOn instanceId)

/-- The tables that workers share, and what has happened to them. -/
structure Floor where
  store : EventStore
  leases : Leases
  history : List Occurrence

namespace Floor

/-- The rows that the claim of `acquire_runnable` may select: which of those that
meet its conditions depends on the order of their last updates and on locks. -/
structure Selects (floor : Floor) (limit : Int) (now : Time) (rows : List IndexRow) : Prop where
  distinct : (rows.map IndexRow.instanceId).Nodup
  stored : ∀ row ∈ rows, floor.store.index.get? row.instanceId = some row
  claimable : ∀ row ∈ rows, claimable now row (floor.leases.get? row.instanceId) = true
  limited : rows.length ≤ limit.toNat

def acquired (ttl : Time) (floor : Floor) (workerId : String) (now : Time)
    (rows : List IndexRow) : Floor :=
  let result := floor.leases.acquireRows ttl workerId now rows
  { floor with leases := result.2, history := floor.history ++ result.1.map .granted }

/-- An append, in one transaction with the guard of a lease or without one. -/
def appended (floor : Floor) (guard : Option FencedLease) (instanceId tenantId : String)
    (drafts : List Event) (expectedVersion : Nat) (nextWakeupAt : Option Time) : Floor :=
  let result := floor.store.appendNew instanceId tenantId drafts expectedVersion
    (guard.map fun lease _ => floor.leases.makeGuard lease) nextWakeupAt
  { floor with
    store := result.1
    history :=
      match result.2 with
      | .ok (_, events) => floor.history ++ [.committed guard events]
      | .error _ => floor.history }

/-- One transaction.  Guards are those of granted leases, on their instances. -/
inductive Step (ttl : Time) : Floor → Floor → Prop
  | acquire {floor : Floor} (workerId : String) (limit : Int) (now : Time)
      {rows : List IndexRow} :
      floor.Selects limit now rows →
      Step ttl floor (floor.acquired ttl workerId now rows)
  | heartbeat {floor : Floor} (workerId : String) (instanceIds : List String) (now : Time) :
      Step ttl floor
        { floor with leases := (floor.leases.heartbeat ttl workerId instanceIds now).2 }
  | release {floor : Floor} (workerId instanceId : String) :
      Step ttl floor { floor with leases := floor.leases.release workerId instanceId }
  | guardedAppend {floor : Floor} {lease : FencedLease} (tenantId : String)
      (drafts : List Event) (expectedVersion : Nat) (nextWakeupAt : Option Time) :
      .granted lease ∈ floor.history →
      Step ttl floor
        (floor.appended (some lease) lease.instanceId tenantId drafts expectedVersion nextWakeupAt)
  | append {floor : Floor} (instanceId tenantId : String) (drafts : List Event)
      (expectedVersion : Nat) (nextWakeupAt : Option Time) :
      Step ttl floor
        (floor.appended none instanceId tenantId drafts expectedVersion nextWakeupAt)

abbrev Run (ttl : Time) : Floor → Floor → Prop :=
  Relation.ReflTransGen (Step ttl)

end Floor

/-! ## The history and the lease rows -/

section Histories

variable {ttl : Time} {leases : Leases} {history : List Occurrence} {instanceId : String}
  {lease : FencedLease}

theorem mem_grantsOn : lease ∈ grantsOn instanceId history ↔
      .granted lease ∈ history ∧ lease.instanceId = instanceId := by
  unfold grantsOn
  rw [List.mem_filterMap]
  constructor
  · rintro ⟨occurrence, member, found⟩
    cases occurrence with
    | granted other =>
      simp only [Occurrence.grantOn, Option.ite_none_right_eq_some, Option.some.injEq] at found
      obtain ⟨same, rfl⟩ := found
      exact ⟨member, same⟩
    | committed guard events => cases found
  · rintro ⟨member, same⟩
    exact ⟨.granted lease, member, by simp [Occurrence.grantOn, same]⟩

theorem mem_guardsOn : lease ∈ guardsOn instanceId history ↔
      (∃ events, .committed (some lease) events ∈ history) ∧ lease.instanceId = instanceId := by
  unfold guardsOn
  rw [List.mem_filterMap]
  constructor
  · rintro ⟨occurrence, member, found⟩
    cases occurrence with
    | granted other => cases found
    | committed guard events =>
      simp only [Occurrence.guardOn, Option.filter_eq_some_iff, decide_eq_true_eq] at found
      obtain ⟨rfl, same⟩ := found
      exact ⟨⟨events, member⟩, same⟩
  · rintro ⟨⟨events, member⟩, same⟩
    exact ⟨_, member, by simp [Occurrence.guardOn, Option.filter, same]⟩

/-- A commit under a guard comes from the most recent grant. -/
def Current (before : List Occurrence) : Occurrence → Prop
  | .granted _ => True
  | .committed none _ => True
  | .committed (some lease) _ => (grantsOn lease.instanceId before).getLast? = some lease

/-- The tokens of every instance have grown with every grant. -/
def Growing (history : List Occurrence) : Prop :=
  ∀ instanceId,
    (grantsOn instanceId history).Pairwise fun older newer => older.fenceToken < newer.fenceToken

/-- No grant carries a larger token than the most recent one. -/
theorem Growing.eq_or_lt (growing : Growing history) {last lease : FencedLease}
    (isLast : (grantsOn instanceId history).getLast? = some last)
    (member : lease ∈ grantsOn instanceId history) :
    lease = last ∨ lease.fenceToken < last.fenceToken := by
  obtain ⟨older, split⟩ := List.getLast?_eq_some_iff.mp isLast
  have pairwise := growing instanceId
  rw [split] at pairwise member
  rcases List.mem_append.mp member with old | new
  · exact .inr ((List.pairwise_append.mp pairwise).2.2 lease old last List.mem_cons_self)
  · exact .inl (List.mem_singleton.mp new)

theorem Growing.le (growing : Growing history) {last lease : FencedLease}
    (isLast : (grantsOn instanceId history).getLast? = some last)
    (member : lease ∈ grantsOn instanceId history) : lease.fenceToken ≤ last.fenceToken := by
  rcases growing.eq_or_lt isLast member with rfl | older
  · exact Nat.le_refl _
  · exact Nat.le_of_lt older

theorem Growing.of_append {first second : List Occurrence} (growing : Growing (first ++ second)) :
    Growing first := by
  intro instanceId
  have pairwise := growing instanceId
  rw [grantsOn, List.filterMap_append, List.pairwise_append] at pairwise
  exact pairwise.1

/-- The owner and the token of every row are those of the most recent grant. -/
structure Fenced (leases : Leases) (history : List Occurrence) : Prop where
  rows : ∀ instanceId, (leases.get? instanceId).map (fun row => (row.workerId, row.fenceToken)) =
    (grantsOn instanceId history).getLast?.map fun lease => (lease.workerId, lease.fenceToken)
  growing : Growing history
  current : EachAt Current history

variable (fenced : Fenced leases history) {events : List Event}

include fenced

/-- The guard of a granted lease passes exactly for the most recent grant. -/
theorem Fenced.makeGuard_iff (granted : .granted lease ∈ history) :
    leases.makeGuard lease = .ok () ↔
      (grantsOn lease.instanceId history).getLast? = some lease := by
  have rows := fenced.rows lease.instanceId
  rw [Leases.makeGuard_eq_ok]
  constructor
  · rintro ⟨row, found, sameWorker, sameToken⟩
    rw [found] at rows
    obtain ⟨last, isLast, same⟩ := Option.map_eq_some_iff.mp rows.symm
    rw [isLast]
    rcases fenced.growing.eq_or_lt isLast (mem_grantsOn.mpr ⟨granted, rfl⟩) with equal | older
    · rw [equal]
    · have equalTokens := congrArg Prod.snd same
      simp only [sameToken] at equalTokens
      omega
  · intro isLast
    rw [isLast] at rows
    obtain ⟨row, found, same⟩ := Option.map_eq_some_iff.mp rows
    exact ⟨row, found, congrArg Prod.fst same, congrArg Prod.snd same⟩

/-- One claim: the row it leaves is that of its grant. -/
theorem Fenced.claim (workerId : String) (now : Time) (row : IndexRow) :
    Fenced (leases.set row.instanceId
        (claimedRow ttl workerId now row (leases.get? row.instanceId))) (history ++ [.granted
        (leaseOf row (claimedRow ttl workerId now row (leases.get? row.instanceId)))]) := by
  have rows := fenced.rows row.instanceId
  constructor
  case rows =>
    intro instanceId
    by_cases same : instanceId = row.instanceId
    · subst same
      simp [grantsOn, Occurrence.grantOn, leaseOf]
    · have different : row.instanceId ≠ instanceId := fun equal => same equal.symm
      rw [Dict.get?_set_ne leases same, fenced.rows instanceId]
      simp [grantsOn, Occurrence.grantOn, leaseOf, different]
  case growing =>
    intro instanceId
    by_cases same : row.instanceId = instanceId
    · subst same
      have split : grantsOn row.instanceId (history ++ [.granted
          (leaseOf row (claimedRow ttl workerId now row (leases.get? row.instanceId)))]) =
          grantsOn row.instanceId history ++
            [leaseOf row (claimedRow ttl workerId now row (leases.get? row.instanceId))] := by
        simp [grantsOn, Occurrence.grantOn, leaseOf]
      rw [split, List.pairwise_append]
      refine ⟨fenced.growing _, List.pairwise_singleton _ _, ?_⟩
      intro older member newer isNew
      rw [List.mem_singleton.mp isNew]
      cases last : (grantsOn row.instanceId history).getLast? with
      | none => simp_all
      | some lease =>
        rw [last] at rows
        obtain ⟨held, found, equal⟩ := Option.map_eq_some_iff.mp rows
        have tokens : held.fenceToken = lease.fenceToken := congrArg Prod.snd equal
        have bound := fenced.growing.le last member
        simp only [leaseOf, claimedRow, found, Option.map_some, Option.getD_some]
        omega
    · have unchanged : grantsOn instanceId (history ++ [.granted
          (leaseOf row (claimedRow ttl workerId now row (leases.get? row.instanceId)))]) =
          grantsOn instanceId history := by
        simp [grantsOn, Occurrence.grantOn, leaseOf, same]
      rw [unchanged]
      exact fenced.growing instanceId
  case current => exact eachAt_concat.mpr ⟨fenced.current, trivial⟩

theorem Fenced.acquireRows (workerId : String) (now : Time) (rows : List IndexRow) :
    Fenced (leases.acquireRows ttl workerId now rows).2
      (history ++ (leases.acquireRows ttl workerId now rows).1.map .granted) := by
  induction rows generalizing leases history with
  | nil => simpa [Leases.acquireRows] using fenced
  | cons row rest ih => simpa [Leases.acquireRows] using ih (fenced.claim workerId now row)

theorem Fenced.updateOwned {workerId : String} {instanceIds : List String}
    {change : LeaseRow → LeaseRow}
    (keeps : ∀ row, (change row).workerId = row.workerId ∧
      (change row).fenceToken = row.fenceToken) :
    Fenced (leases.updateOwned workerId instanceIds change) history :=
  { fenced with
    rows := fun instanceId => (Leases.get?_updateOwned keeps instanceId).trans
      (fenced.rows instanceId) }

/-- A commit without a guard, or under the guard of the most recent grant. -/
theorem Fenced.commit {guard : Option FencedLease}
    (current : Current history (.committed guard events)) :
    Fenced leases (history ++ [.committed guard events]) := by
  have unchanged (instanceId : String) :
      grantsOn instanceId (history ++ [.committed guard events]) = grantsOn instanceId history := by
    simp [grantsOn, Occurrence.grantOn]
  constructor
  case rows =>
    intro instanceId
    rw [unchanged]
    exact fenced.rows instanceId
  case growing =>
    intro instanceId
    rw [unchanged]
    exact fenced.growing instanceId
  case current => exact eachAt_concat.mpr ⟨fenced.current, current⟩

omit fenced

/-- Whoever has committed was granted the lease before. -/
theorem granted_of_committed (current : EachAt Current history)
    (member : .committed (some lease) events ∈ history) : .granted lease ∈ history := by
  obtain ⟨before, after, split⟩ := List.append_of_mem member
  have isLast : (grantsOn lease.instanceId before).getLast? = some lease :=
    current before _ after split
  have granted := (mem_grantsOn.mp (List.mem_of_getLast? isLast)).1
  rw [split]
  exact List.mem_append_left _ granted

/-- The tokens under which batches were committed never decrease. -/
theorem pairwise_guardsOn (growing : Growing history) (current : EachAt Current history) :
    (guardsOn instanceId history).Pairwise
      fun earlier later => earlier.fenceToken ≤ later.fenceToken := by
  induction history using List.reverseRecOn with
  | nil => exact List.Pairwise.nil
  | append_singleton earlier last ih =>
    obtain ⟨currentBefore, isCurrent⟩ := eachAt_concat.mp current
    have growingBefore := growing.of_append
    rw [guardsOn, List.filterMap_append, List.pairwise_append]
    refine ⟨ih growingBefore currentBefore, ?_, ?_⟩
    · cases guarded : Occurrence.guardOn instanceId last with
      | none => simp [guarded]
      | some lease => simp [guarded]
    · intro lease committed newer isNewer
      obtain ⟨⟨events, listed⟩, sameInstance⟩ := mem_guardsOn.mp committed
      obtain ⟨⟨batch, isLast⟩, rfl⟩ := mem_guardsOn.mp isNewer
      cases List.mem_singleton.mp isLast
      exact growingBefore.le isCurrent
        (mem_grantsOn.mpr ⟨granted_of_committed currentBefore listed, sameInstance⟩)

end Histories

/-! ## Runs -/

section Runs

variable {ttl : Time} {start floor later : Floor}

/-- An append is refused and writes nothing, or its batch is committed and its
guard has passed. -/
theorem Floor.appended_cases (floor : Floor) (guard : Option FencedLease)
    (instanceId tenantId : String) (drafts : List Event) (expectedVersion : Nat)
    (nextWakeupAt : Option Time) :
    let next := floor.appended guard instanceId tenantId drafts expectedVersion nextWakeupAt
    next.leases = floor.leases ∧
      ((next.history = floor.history ∧ next.store.events = floor.store.events) ∨
        ∃ events, next.history = floor.history ++ [.committed guard events] ∧
          next.store.events = floor.store.events ++ events ∧
          ∀ lease, guard = some lease → floor.leases.makeGuard lease = .ok ()) := by
  refine ⟨rfl, ?_⟩
  unfold Floor.appended EventStore.appendNew
  rcases EventStore.commit_cases floor.store instanceId tenantId (resequence expectedVersion drafts)
    expectedVersion (guard.map fun lease _ => floor.leases.makeGuard lease) nextWakeupAt with
    ⟨failure, refused⟩ | ⟨committed, accepted, ⟨none, outcome⟩ | ⟨version, outcome⟩⟩
  · rw [refused]
    exact .inl ⟨rfl, rfl⟩
  · rw [outcome]
    obtain ⟨_, _, inst, _, refreshed⟩ := EventStore.transact_eq_ok accepted
    refine .inl ⟨rfl, ?_⟩
    rw [EventStore.events_of_refreshDerived refreshed, none]
    exact List.append_nil _
  · rw [outcome]
    obtain ⟨_, _, inst, _, refreshed⟩ := EventStore.transact_eq_ok accepted
    refine .inr ⟨_, rfl, EventStore.events_of_refreshDerived refreshed, ?_⟩
    rintro lease rfl
    exact EventStore.runGuard_of_transact accepted

/-- The log consists of the committed batches, in their order. -/
def Logged (start floor : Floor) : Prop :=
  floor.store.events = start.store.events ++ floor.history.flatMap Occurrence.events

theorem Fenced.step (fenced : Fenced floor.leases floor.history)
    (step : Floor.Step ttl floor later) :
    Fenced later.leases later.history := by
  cases step with
  | acquire workerId limit now selected => exact fenced.acquireRows workerId now _
  | heartbeat workerId instanceIds now =>
    have keeps (row : LeaseRow) :
        { row with heartbeatAt := now, expiresAt := now + ttl }.workerId = row.workerId ∧
          { row with heartbeatAt := now, expiresAt := now + ttl }.fenceToken = row.fenceToken :=
      ⟨rfl, rfl⟩
    exact fenced.updateOwned keeps
  | release workerId instanceId =>
    have keeps (row : LeaseRow) :
        { row with expiresAt := row.heartbeatAt - 1 }.workerId = row.workerId ∧
          { row with expiresAt := row.heartbeatAt - 1 }.fenceToken = row.fenceToken :=
      ⟨rfl, rfl⟩
    exact fenced.updateOwned keeps
  | @guardedAppend lease tenantId drafts expectedVersion nextWakeupAt granted =>
    obtain ⟨leases, ⟨history, _⟩ | ⟨events, history, _, passed⟩⟩ :=
      floor.appended_cases (some lease) lease.instanceId tenantId drafts expectedVersion
        nextWakeupAt
    · rw [leases, history]
      exact fenced
    · rw [leases, history]
      exact fenced.commit ((fenced.makeGuard_iff granted).mp (passed lease rfl))
  | append instanceId tenantId drafts expectedVersion nextWakeupAt =>
    obtain ⟨leases, ⟨history, _⟩ | ⟨events, history, _⟩⟩ :=
      floor.appended_cases none instanceId tenantId drafts expectedVersion nextWakeupAt
    · rw [leases, history]
      exact fenced
    · rw [leases, history]
      exact fenced.commit trivial

theorem Logged.step (logged : Logged start floor) (step : Floor.Step ttl floor later) :
    Logged start later := by
  have appended (guard : Option FencedLease) (instanceId tenantId : String) (drafts : List Event)
      (expectedVersion : Nat) (nextWakeupAt : Option Time) : Logged start
        (floor.appended guard instanceId tenantId drafts expectedVersion nextWakeupAt) := by
    unfold Logged at logged ⊢
    obtain ⟨_, ⟨history, same⟩ | ⟨events, history, grown, _⟩⟩ :=
      floor.appended_cases guard instanceId tenantId drafts expectedVersion nextWakeupAt
    · rw [history, same, logged]
    · rw [history, grown, logged]
      simp [Occurrence.events]
  cases step with
  | acquire workerId limit now selected =>
    unfold Logged at logged ⊢
    simp [Floor.acquired, logged, Occurrence.events]
  | heartbeat workerId instanceIds now => exact logged
  | release workerId instanceId => exact logged
  | guardedAppend => exact appended ..
  | append => exact appended ..

end Runs

/-- Fence tokens, guards and commits along every run. -/
theorem fencing (ttl : Time) (start floor : Floor) (unclaimed : start.leases = Dict.empty)
    (blank : start.history = []) (run : Floor.Run ttl start floor) :
    (∀ instanceId, (grantsOn instanceId floor.history).Pairwise
      fun older newer => older.fenceToken < newer.fenceToken) ∧
    (∀ lease, .granted lease ∈ floor.history →
      (floor.leases.makeGuard lease = .ok () ↔
        (grantsOn lease.instanceId floor.history).getLast? = some lease)) ∧
    floor.store.events = start.store.events ++ floor.history.flatMap Occurrence.events ∧
    (∀ instanceId, (guardsOn instanceId floor.history).Pairwise
      fun earlier later => earlier.fenceToken ≤ later.fenceToken) ∧
    ∀ before lease events after newer,
      floor.history = before ++ .committed (some lease) events :: after →
      .granted newer ∈ before → newer.instanceId = lease.instanceId →
        newer.fenceToken ≤ lease.fenceToken := by
  have both : Fenced floor.leases floor.history ∧ Logged start floor := by
    induction run with
    | refl =>
        refine ⟨?_, by simp [Logged, blank]⟩
        rw [unclaimed, blank]
        exact ⟨fun _ => rfl, fun _ => List.Pairwise.nil, eachAt_nil _⟩
    | tail _ step ih => exact ⟨ih.1.step step, ih.2.step step⟩
  obtain ⟨fenced, logged⟩ := both
  refine ⟨fenced.growing, fun lease granted => fenced.makeGuard_iff granted, logged,
    fun _ => pairwise_guardsOn fenced.growing fenced.current, ?_⟩
  intro before lease events after newer split granted same
  have isLast : (grantsOn lease.instanceId before).getLast? = some lease :=
    fenced.current before _ after split
  have growing : Growing before := by
    have whole := fenced.growing
    rw [split] at whole
    exact whole.of_append
  exact growing.le isLast (mem_grantsOn.mpr ⟨granted, same⟩)

/-! ## A lease that is taken over -/

/-- An instance has just been created. -/
def unleasedFloor : Floor where
  store := (EventStore.appendNew {} "instance" "tenant"
    [{ eventId := "genesis", instanceId := "instance", tenantId := "tenant", sequence := 0,
       occurredAt := 0, payload := .instanceCreated "mail" "1.0.0" Dict.empty none }] 0).1
  leases := Dict.empty
  history := []

/-- Its row in the index. -/
def unleasedRow : IndexRow where
  instanceId := "instance"
  tenantId := "tenant"
  workflowId := "mail"
  workflowVersion := "1.0.0"
  status := .pending
  lastSequence := 1
  costAccumulatedUsd := 0
  budgetLimitUsd := none
  nextWakeupAt := none
  completedAt := none

/-- A worker claims the instance and starts it, and when its lease has expired
another one claims it. -/
def takenOver : Floor :=
  let claimed := unleasedFloor.acquired 30 "first" 0 [unleasedRow]
  let lease := leaseOf unleasedRow (claimedRow 30 "first" 0 unleasedRow none)
  let started := claimed.appended (some lease) "instance" "tenant"
    [{ eventId := "start", instanceId := "instance", tenantId := "tenant", sequence := 0,
       occurredAt := 1, payload := .instanceStatusChanged .pending .running none }] 1 none
  started.acquired 30 "second" 60 [{ unleasedRow with status := .running, lastSequence := 2 }]

theorem fencing_takenOver :
    ((grantsOn "instance" takenOver.history).map FencedLease.fenceToken = [1, 2] ∧
      takenOver.store.events.length = 2) ∧
    (grantsOn "instance" takenOver.history).Pairwise
      fun older newer => older.fenceToken < newer.fenceToken := by
  have run : Floor.Run 30 unleasedFloor takenOver := by
    refine .tail (.tail (.single (.acquire "first" 1 0 ?_)) (.guardedAppend _ _ _ _ ?_))
      (.acquire "second" 1 60 ?_)
    · constructor
      case distinct => decide
      case stored =>
        intro row member
        cases List.mem_singleton.mp member
        rfl
      case claimable =>
        intro row member
        cases List.mem_singleton.mp member
        decide +kernel
      case limited => decide
    · exact List.mem_singleton_self _
    · constructor
      case distinct => decide
      case stored =>
        intro row member
        cases List.mem_singleton.mp member
        rfl
      case claimable =>
        intro row member
        cases List.mem_singleton.mp member
        decide +kernel
      case limited => decide
  exact ⟨by decide +kernel, (fencing 30 unleasedFloor takenOver rfl rfl run).1 "instance"⟩

end AgentForge.Guarantees
