import AgentForge.Leasing.Worker
import Mathlib.Algebra.Order.Group.Unbundled.Basic
import Mathlib.Algebra.Order.Ring.Rat

/-!
# Leases in the hands of a worker

A worker releases a lease some time before it removes the instance from its map,
and its claim loop ignores a lease for an instance in the map.  Its heartbeat may
extend a lease that has just been released.  As long as no claim is granted an
instance of the map, no heartbeat extends a released lease and no task with a held
lease is cancelled before it begins or while it releases, every lease is handed to a
new task, and a lease that has not expired has a task or is about to get one.
-/

namespace AgentForge.Guarantees

open Domain Leasing Library Store

variable {leases : Leases} {instanceId : String} {state : WorkerState}

section Custody

variable (config : WorkerConfig) (state : WorkerState)

/-- The lease row of the instance has the worker's name. -/
def Owns (instanceId : String) : Prop :=
  ∃ row, state.leases.get? instanceId = some row ∧ row.workerId = config.workerId

/-- The worker holds a lease that has not expired. -/
def HoldsLease (instanceId : String) : Prop :=
  ∃ row, state.leases.get? instanceId = some row ∧ row.workerId = config.workerId ∧
    state.clock ≤ row.expiresAt

/-- A drive task for the instance is running. -/
def HasTask (instanceId : String) : Prop :=
  ∃ task, state.active.get? instanceId = some task ∧ task.phase ≠ .dead

/-- The instance is about to be spawned. -/
def IsPending (instanceId : String) : Prop :=
  ∃ lease ∈ state.pending, lease.instanceId = instanceId

/-- The instance has a task that has not released it, or is about to get one. -/
def InCare (instanceId : String) : Prop :=
  (∃ task, state.active.get? instanceId = some task ∧
    (task.phase = .created ∨ task.phase = .driving ∨ task.phase = .releasing)) ∨
      IsPending state instanceId

/-- Claims are not granted instances of the map, heartbeats extend only leases in
care, and tasks are cancelled before they begin, and releases cut short, only when
the worker no longer holds the lease. -/
def Attentive : WorkerEvent → Prop
  | .claimCommits instanceIds =>
      ∀ row ∈ state.rowsOf instanceIds, state.active.get? row.instanceId = none
  | .heartbeatCommits => ∀ held now, state.beat = .beating held now →
      ∀ instanceId ∈ held, Owns config state instanceId → InCare state instanceId
  | .releaseFails instanceId => ¬ HoldsLease config state instanceId
  | .heartbeatResumes => ∀ held alive, state.beat = .answered held alive →
      ∀ instanceId ∈ held, instanceId ∉ alive → ∀ task,
        state.active.get? instanceId = some task →
          task.phase = .created ∨ task.phase = .releasing → ¬ HoldsLease config state instanceId
  | _ => True

/-- The invariant of an attentive worker. -/
structure Custody : Prop where
  held : ∀ instanceId, HoldsLease config state instanceId → InCare state instanceId
  past : ∀ instanceId row, state.leases.get? instanceId = some row →
    row.workerId = config.workerId → row.heartbeatAt ≤ state.clock
  claimTime : ∀ limit now, state.claim = .claiming limit now → now ≤ state.clock
  beatTime : ∀ held now, state.beat = .beating held now → now ≤ state.clock
  absent : ∀ lease ∈ state.pending, state.active.get? lease.instanceId = none
  distinct : (state.pending.map fun lease => lease.instanceId).Nodup
  ignored : state.ignored = []

end Custody

section Steps

variable {config : WorkerConfig} {state next : WorkerState}

/-! ## The claim loop -/

/-- What the loop over the claimed leases does, if none of them is active. -/
structure Spawned (leases : List FencedLease) (state next : WorkerState) : Prop where
  clock : next.clock = state.clock
  table : next.leases = state.leases
  claim : next.claim = state.claim
  beat : next.beat = state.beat
  ignored : next.ignored = state.ignored
  kept : ∀ instanceId task, state.active.get? instanceId = some task →
    next.active.get? instanceId = some task
  new : ∀ lease ∈ leases, ∃ task, next.active.get? lease.instanceId = some task ∧
    task.phase = .created

theorem spawned_foldl {leases : List FencedLease}
    (absent : ∀ lease ∈ leases, state.active.get? lease.instanceId = none)
    (distinct : (leases.map fun lease => lease.instanceId).Nodup) :
    Spawned leases state (leases.foldl WorkerState.spawn state) := by
  induction leases generalizing state with
  | nil => exact ⟨rfl, rfl, rfl, rfl, rfl, fun _ _ found => found, nofun⟩
  | cons lease rest ih =>
    rw [List.map_cons, List.nodup_cons] at distinct
    have isNew : state.active.get? lease.instanceId = none := absent lease List.mem_cons_self
    have first : state.spawn lease =
        { state with active := state.active.set lease.instanceId { lease := lease } } := by
      simp [WorkerState.spawn, isNew]
    have later := @ih (state.spawn lease) (fun other member => by
      have different : other.instanceId ≠ lease.instanceId := fun same =>
        distinct.1 (same ▸ List.mem_map_of_mem member)
      rw [first]
      exact (Dict.get?_set_ne _ different _).trans (absent other (List.mem_cons_of_mem _ member)))
      distinct.2
    rw [List.foldl_cons]
    rw [first] at later ⊢
    refine ⟨later.clock, later.table, later.claim, later.beat, later.ignored, ?_, ?_⟩
    · intro instanceId task found
      refine later.kept instanceId task ?_
      have different : instanceId ≠ lease.instanceId := by
        rintro rfl
        rw [isNew] at found
        cases found
      exact (Dict.get?_set_ne _ different _).trans found
    · intro other member
      rcases List.mem_cons.mp member with rfl | member
      · exact ⟨_, later.kept _ _ (Dict.get?_set_self _ _ _), rfl⟩
      · exact later.new other member

variable (custody : Custody config state) {source target : TaskPhase} {instanceIds : List String}
  {task : DriveTask}

include custody

theorem Custody.claimResumes (stepped : state.claimResumes = some next) : Custody config next := by
  unfold WorkerState.claimResumes at stepped
  split at stepped
  · next leases claim =>
    cases stepped
    have pending : state.pending = leases := by simp [WorkerState.pending, claim]
    have spawned := @spawned_foldl { state with claim := .idle } leases
      (pending ▸ custody.absent) (pending ▸ custody.distinct)
    generalize leases.foldl WorkerState.spawn { state with claim := .idle } = final at spawned
    have nothing : final.pending = [] := by simp [WorkerState.pending, spawned.claim]
    constructor
    case held =>
      rintro instanceId ⟨row, stored, own, live⟩
      have holds : HoldsLease config state instanceId :=
        ⟨row, spawned.table ▸ stored, own, spawned.clock ▸ live⟩
      rcases custody.held instanceId holds with ⟨task, found, phase⟩ | ⟨lease, member, rfl⟩
      · exact .inl ⟨task, spawned.kept instanceId task found, phase⟩
      · obtain ⟨task, found, phase⟩ := spawned.new lease (pending ▸ member)
        exact .inl ⟨task, found, .inl phase⟩
    case past =>
      intro instanceId row stored own
      rw [spawned.table] at stored
      rw [spawned.clock]
      exact custody.past instanceId row stored own
    case claimTime =>
      intro limit now claiming
      rw [spawned.claim] at claiming
      cases claiming
    case beatTime =>
      intro held now beating
      rw [spawned.beat] at beating
      rw [spawned.clock]
      exact custody.beatTime held now beating
    case absent => simp [nothing]
    case distinct => simp [nothing]
    case ignored => exact spawned.ignored.trans custody.ignored
  · cases stepped

theorem Custody.claimCommits
    (attentive : ∀ row ∈ state.rowsOf instanceIds, state.active.get? row.instanceId = none)
    (stepped : state.claimCommits config instanceIds = some next) : Custody config next := by
  unfold WorkerState.claimCommits at stepped
  split at stepped
  · next limit now claim =>
    dsimp only at stepped
    split at stepped
    · next conditions =>
      cases stepped
      have before : state.pending = [] := by simp [WorkerState.pending, claim]
      have ids := Leases.map_instanceId_acquireRows config.ttl config.workerId now state.leases
        (state.rowsOf instanceIds)
      constructor
      case held =>
        rintro instanceId ⟨row, stored, own, live⟩
        rcases @Leases.get?_acquireRows config.ttl config.workerId now state.leases
          (state.rowsOf instanceIds) instanceId with ⟨_, same⟩ | ⟨isNew, _⟩
        · have holds : HoldsLease config state instanceId := ⟨row, same ▸ stored, own, live⟩
          rcases custody.held instanceId holds with inTask | ⟨lease, member, _⟩
          · exact .inl inTask
          · rw [before] at member
            cases member
        · rw [← ids] at isNew
          exact .inr (List.mem_map.mp isNew)
      case past =>
        intro instanceId row stored own
        rcases @Leases.get?_acquireRows config.ttl config.workerId now state.leases
          (state.rowsOf instanceIds) instanceId with ⟨_, same⟩ | ⟨_, claimed, isClaimed, stamp⟩
        · exact custody.past instanceId row (same ▸ stored) own
        · cases isClaimed.symm.trans stored
          exact stamp ▸ custody.claimTime limit now claim
      case claimTime => rintro _ _ ⟨⟩
      case beatTime => exact custody.beatTime
      case absent =>
        intro lease member
        have listed : lease.instanceId ∈ (state.rowsOf instanceIds).map IndexRow.instanceId :=
          ids ▸ List.mem_map_of_mem member
        obtain ⟨row, isRow, same⟩ := List.mem_map.mp listed
        exact same ▸ attentive row isRow
      case distinct => exact ids ▸ conditions.2.1
      case ignored => exact custody.ignored
    · cases stepped
  · cases stepped

/-! ## Tasks -/

omit custody in
/-- A task that goes on changes its own entry. -/
theorem move_eq_some (moved : state.move instanceId source target = some next) :
    ∃ task, state.active.get? instanceId = some task ∧ task.phase = source ∧
      next =
        { state with active := state.active.set instanceId { task with phase := target } } := by
  unfold WorkerState.move at moved
  split at moved
  · next task found =>
    split at moved
    · next phase =>
      cases moved
      exact ⟨task, found, phase, rfl⟩
    · cases moved
  · cases moved

/-- The map changes for one active instance, the lease table for the worker's
rows. -/
theorem Custody.change {active : Dict String DriveTask}
    (found : state.active.get? instanceId = some task)
    (others : ∀ other ≠ instanceId, active.get? other = state.active.get? other)
    (rows : ∀ other ≠ instanceId, leases.get? other = state.leases.get? other)
    (past : ∀ row, leases.get? instanceId = some row → row.workerId = config.workerId →
      row.heartbeatAt ≤ state.clock)
    (own : HoldsLease config { state with leases := leases } instanceId →
      ∃ task, active.get? instanceId = some task ∧
        (task.phase = .created ∨ task.phase = .driving ∨ task.phase = .releasing)) :
    Custody config { state with leases := leases, active := active } := by
  refine { custody with held := ?held, past := ?past, absent := ?absent }
  case held =>
    intro other holds
    by_cases same : other = instanceId
    · subst same
      exact .inl (own holds)
    · obtain ⟨row, stored, isOwn, live⟩ := holds
      rcases custody.held other ⟨row, rows other same ▸ stored, isOwn, live⟩ with
        ⟨task, active, phase⟩ | pending
      · exact .inl ⟨task, (others other same).trans active, phase⟩
      · exact .inr pending
  case past =>
    intro other row stored isOwn
    by_cases same : other = instanceId
    · subst same
      exact past row stored isOwn
    · exact custody.past other row (rows other same ▸ stored) isOwn
  case absent =>
    intro lease member
    have absent := custody.absent lease member
    by_cases same : lease.instanceId = instanceId
    · rw [same, found] at absent
      cases absent
    · exact (others _ same).trans absent

theorem Custody.moved (moved : state.move instanceId source target = some next)
    (fine : target = .driving ∨ target = .releasing ∨ ¬ HoldsLease config state instanceId) :
    Custody config next := by
  obtain ⟨task, found, _, rfl⟩ := move_eq_some moved
  refine custody.change found (fun other different => Dict.get?_set_ne _ different _)
    (fun _ _ => rfl) (custody.past instanceId) fun holds => ?_
  rcases fine with rfl | rfl | lost
  · exact ⟨_, Dict.get?_set_self _ _ _, .inr (.inl rfl)⟩
  · exact ⟨_, Dict.get?_set_self _ _ _, .inr (.inr rfl)⟩
  · exact absurd holds lost

omit custody in
/-- The row of a key after an update of the worker's leases. -/
theorem get?_updateOwned_eq_some {workerId : String} {change : LeaseRow → LeaseRow} {row : LeaseRow}
    (stored : (leases.updateOwned workerId instanceIds change).get? instanceId = some row) :
    ∃ old, leases.get? instanceId = some old ∧
      (old.workerId = workerId ∧ instanceId ∈ instanceIds ∧ row = change old ∨
        ¬ (old.workerId = workerId ∧ instanceId ∈ instanceIds) ∧ row = old) := by
  obtain ⟨old, isOld, rfl⟩ := Dict.get?_mapWithKey_eq_some_iff.mp stored
  refine ⟨old, isOld, ?_⟩
  split
  · next matched => exact .inl ⟨matched.1, matched.2, rfl⟩
  · next unmatched => exact .inr ⟨unmatched, rfl⟩

/-- A released row has expired. -/
theorem Custody.releaseCommits {middle : WorkerState}
    (moved : state.move instanceId .releasing .leaving = some middle) :
    Custody config { middle with leases := state.leases.release config.workerId instanceId } := by
  obtain ⟨task, found, _, rfl⟩ := move_eq_some moved
  refine custody.change found (fun other different => Dict.get?_set_ne _ different _) ?_ ?_ ?_
  · intro other different
    refine (Dict.get?_mapWithKey _ _ other).trans ?_
    simp [different]
  · intro row stored isOwn
    obtain ⟨old, isOld, ⟨_, _, rfl⟩ | ⟨_, rfl⟩⟩ := get?_updateOwned_eq_some stored
    · exact custody.past instanceId old isOld isOwn
    · exact custody.past instanceId row isOld isOwn
  · rintro ⟨row, stored, isOwn, live⟩
    obtain ⟨old, isOld, ⟨isOwn, _, rfl⟩ | ⟨unmatched, rfl⟩⟩ := get?_updateOwned_eq_some stored
    · have past := custody.past instanceId old isOld isOwn
      have expired : old.heartbeatAt - 1 < state.clock :=
        lt_of_lt_of_le (sub_lt_self old.heartbeatAt zero_lt_one) past
      exact absurd live (not_le_of_gt expired)
    · exact absurd ⟨isOwn, List.mem_singleton_self _⟩ unmatched

theorem Custody.releaseResumes (found : state.active.get? instanceId = some task)
    (phase : task.phase = .leaving) :
    Custody config { state with active := state.active.erase instanceId } := by
  refine custody.change found (fun other different => ?_) (fun _ _ => rfl)
    (custody.past instanceId) fun holds => ?_
  · rw [Dict.get?_erase, if_neg different]
  · rcases custody.held instanceId holds with ⟨other, isOther, care⟩ | ⟨lease, member, rfl⟩
    · cases found.symm.trans isOther
      simp [phase] at care
    · rw [custody.absent lease member] at found
      cases found

/-! ## Heartbeats -/

theorem Custody.heartbeatCommits
    (attentive : Attentive config state .heartbeatCommits)
    (stepped : state.heartbeatCommits config = some next) : Custody config next := by
  unfold WorkerState.heartbeatCommits at stepped
  split at stepped
  · next held now beat =>
    cases stepped
    refine { custody with held := ?held, past := ?past, beatTime := ?beatTime }
    case held =>
      rintro instanceId ⟨row, stored, isOwn, live⟩
      obtain ⟨old, isOld, ⟨wasOwn, listed, rfl⟩ | ⟨_, rfl⟩⟩ := get?_updateOwned_eq_some stored
      · exact attentive held now beat instanceId listed ⟨old, isOld, wasOwn⟩
      · exact custody.held instanceId ⟨row, isOld, isOwn, live⟩
    case past =>
      intro instanceId row stored isOwn
      obtain ⟨old, isOld, ⟨_, _, rfl⟩ | ⟨_, rfl⟩⟩ := get?_updateOwned_eq_some stored
      · exact custody.beatTime held now beat
      · exact custody.past instanceId row isOld isOwn
    case beatTime => rintro _ _ ⟨⟩
  · cases stepped

theorem Custody.heartbeatResumes
    (attentive : Attentive config state .heartbeatResumes)
    (stepped : state.heartbeatResumes = some next) : Custody config next := by
  unfold WorkerState.heartbeatResumes at stepped
  split at stepped
  · next held alive beat =>
    cases stepped
    refine { custody with held := ?held, beatTime := ?beatTime, absent := ?absent }
    case held =>
      intro instanceId holds
      rcases custody.held instanceId holds with ⟨task, found, phase⟩ | pending
      · refine .inl ⟨_, Dict.get?_mapWithKey_eq_some_iff.mpr ⟨task, found, rfl⟩, ?_⟩
        split
        · next lost =>
          have cut := attentive held alive beat instanceId lost.1 lost.2 task found
          rcases phase with phase | phase | phase
          · exact absurd holds (cut (.inl phase))
          · exact .inr (.inl (by simp [DriveTask.cancel, phase]))
          · exact absurd holds (cut (.inr phase))
        · exact phase
      · exact .inr pending
    case beatTime => rintro _ _ ⟨⟩
    case absent =>
      intro lease member
      refine (Dict.get?_mapWithKey _ _ _).trans ?_
      rw [custody.absent lease member]
      rfl
  · cases stepped

/-! ## Runs -/

theorem Custody.tick {now : Time} (later : state.clock ≤ now) :
    Custody config { state with clock := now } := by
  refine
    { custody with held := ?held, past := ?past, claimTime := ?claimTime, beatTime := ?beatTime }
  case held =>
    rintro instanceId ⟨row, stored, isOwn, live⟩
    exact custody.held instanceId ⟨row, stored, isOwn, le_trans later live⟩
  case past =>
    exact fun instanceId row stored isOwn =>
      le_trans (custody.past instanceId row stored isOwn) later
  case claimTime =>
    exact fun limit time claim => le_trans (custody.claimTime limit time claim) later
  case beatTime => exact fun held time beat => le_trans (custody.beatTime held time beat) later

/-- Other processes leave the worker's rows or replace them by their own. -/
theorem Custody.elsewhere {index : Dict String IndexRow}
    (kept : state.keepsOwn config leases = true) :
    Custody config { state with index := index, leases := leases } := by
  have same {instanceId : String} {row : LeaseRow} (stored : leases.get? instanceId = some row)
      (isOwn : row.workerId = config.workerId) : state.leases.get? instanceId = some row := by
    have passed := List.all_eq_true.mp kept _ (Dict.get?_eq_some_iff.mp stored)
    simpa [isOwn] using passed
  refine { custody with held := ?held, past := ?past }
  case held =>
    rintro instanceId ⟨row, stored, isOwn, live⟩
    exact custody.held instanceId ⟨row, same stored isOwn, isOwn, live⟩
  case past => exact fun instanceId row stored isOwn =>
    custody.past instanceId row (same stored isOwn) isOwn

/-- The claim loop goes on without new leases. -/
theorem Custody.claims {claim : ClaimPhase} (nothing : state.pending = [])
    (still : ({ state with claim := claim }).pending = [])
    (claimTime : ∀ limit now, claim = .claiming limit now → now ≤ state.clock) :
    Custody config { state with claim := claim } := by
  constructor
  case held =>
    intro instanceId holds
    rcases custody.held instanceId holds with inTask | ⟨lease, member, _⟩
    · exact .inl inTask
    · rw [nothing] at member
      cases member
  case past => exact custody.past
  case claimTime => exact claimTime
  case beatTime => exact custody.beatTime
  case absent => simp [still]
  case distinct => simp [still]
  case ignored => exact custody.ignored

theorem Custody.beats {beat : BeatPhase}
    (beatTime : ∀ held now, beat = .beating held now → now ≤ state.clock) :
    Custody config { state with beat := beat } :=
  ⟨custody.held, custody.past, custody.claimTime, beatTime, custody.absent, custody.distinct,
    custody.ignored⟩

theorem Custody.step {event : WorkerEvent} (attentive : Attentive config state event)
    (stepped : state.step config event = some next) : Custody config next := by
  cases event with
  | tick now =>
    simp only [WorkerState.step, Option.ite_none_right_eq_some, Option.some.injEq] at stepped
    obtain ⟨later, rfl⟩ := stepped
    exact custody.tick later
  | elsewhere index leases =>
    simp only [WorkerState.step, Option.ite_none_right_eq_some, Option.some.injEq] at stepped
    obtain ⟨kept, rfl⟩ := stepped
    exact custody.elsewhere kept
  | beginClaim =>
    simp only [WorkerState.step] at stepped
    split at stepped
    · next claim =>
      simp only [Option.ite_none_right_eq_some, Option.some.injEq] at stepped
      obtain ⟨_, rfl⟩ := stepped
      refine custody.claims (by simp [WorkerState.pending, claim]) rfl ?_
      rintro _ _ ⟨⟩
      exact le_refl _
    · cases stepped
  | claimCommits instanceIds => exact custody.claimCommits attentive stepped
  | claimFails =>
    simp only [WorkerState.step] at stepped
    split at stepped
    · next claim =>
      cases stepped
      refine custody.claims (by simp [WorkerState.pending, claim]) rfl ?_
      rintro _ _ ⟨⟩
    · cases stepped
  | claimResumes => exact custody.claimResumes stepped
  | driveBegins instanceId => exact custody.moved stepped (.inl rfl)
  | driveEnds instanceId => exact custody.moved stepped (.inr (.inl rfl))
  | releaseCommits instanceId =>
    obtain ⟨middle, moved, rfl⟩ := Option.map_eq_some_iff.mp stepped
    exact custody.releaseCommits moved
  | releaseFails instanceId => exact custody.moved stepped (.inr (.inr attentive))
  | releaseResumes instanceId =>
    simp only [WorkerState.step] at stepped
    split at stepped
    · next task found =>
      simp only [Option.ite_none_right_eq_some, Option.some.injEq] at stepped
      obtain ⟨phase, rfl⟩ := stepped
      exact custody.releaseResumes found phase
    · cases stepped
  | beginHeartbeat =>
    simp only [WorkerState.step] at stepped
    split at stepped
    · simp only [Option.ite_none_left_eq_some, Option.some.injEq] at stepped
      obtain ⟨_, rfl⟩ := stepped
      refine custody.beats ?_
      rintro _ _ ⟨⟩
      exact le_refl _
    · cases stepped
  | heartbeatCommits => exact custody.heartbeatCommits attentive stepped
  | heartbeatFails =>
    simp only [WorkerState.step] at stepped
    split at stepped
    · cases stepped
      refine custody.beats ?_
      rintro _ _ ⟨⟩
    · cases stepped
  | heartbeatResumes => exact custody.heartbeatResumes attentive stepped

end Steps

/-- A worker that has just been started: nothing is under way, and lease rows with
its name have expired. -/
structure Starts (config : WorkerConfig) (state : WorkerState) : Prop where
  claim : state.claim = .idle
  beat : state.beat = .sleeping
  active : state.active = Dict.empty
  ignored : state.ignored = []
  expired : ∀ instanceId row, state.leases.get? instanceId = some row →
    row.workerId = config.workerId → row.heartbeatAt ≤ state.clock ∧ row.expiresAt < state.clock

/-- Events under a condition. -/
def Follows (config : WorkerConfig) (may : WorkerState → WorkerEvent → Prop)
    (state next : WorkerState) : Prop :=
  ∃ event, may state event ∧ state.step config event = some next

theorem custody_of_starts {config : WorkerConfig}
    (starts : Starts config state) : Custody config state := by
  have nothing : state.pending = [] := by simp [WorkerState.pending, starts.claim]
  constructor
  case held =>
    rintro instanceId ⟨row, stored, isOwn, live⟩
    exact absurd live (not_le_of_gt (starts.expired instanceId row stored isOwn).2)
  case past => exact fun instanceId row stored isOwn =>
    (starts.expired instanceId row stored isOwn).1
  case claimTime => simp [starts.claim]
  case beatTime => simp [starts.beat]
  case absent => simp [nothing]
  case distinct => simp [nothing]
  case ignored => exact starts.ignored

/-- An attentive worker hands every claimed lease to a new task, and every lease it
holds has a task or is about to get one. -/
theorem claimed_leases_kept (config : WorkerConfig) (start state : WorkerState)
    (starts : Starts config start)
    (run : Relation.ReflTransGen (Follows config (Attentive config)) start state) :
    state.ignored = [] ∧ ∀ instanceId, HoldsLease config state instanceId →
      HasTask state instanceId ∨ IsPending state instanceId := by
  have custody : Custody config state := by
    induction run with
    | refl => exact custody_of_starts starts
    | tail _ stepped custody =>
        obtain ⟨event, attentive, stepped⟩ := stepped
        exact custody.step attentive stepped
  refine ⟨custody.ignored, fun instanceId holds => ?_⟩
  rcases custody.held instanceId holds with ⟨task, found, phase⟩ | pending
  · refine .inl ⟨task, found, ?_⟩
    rcases phase with phase | phase | phase <;> simp [phase]
  · exact .inr pending

/-! ## One instance -/

def queuedRow : IndexRow where
  instanceId := "instance"
  tenantId := "tenant"
  workflowId := "report"
  workflowVersion := "1.0.0"
  status := .running
  lastSequence := 4
  costAccumulatedUsd := 0
  budgetLimitUsd := none
  nextWakeupAt := none
  completedAt := none

def loneWorker : WorkerConfig where
  workerId := "worker"

def queuedState : WorkerState where
  clock := 100
  index := Dict.ofList [("instance", queuedRow)]
  leases := Dict.empty

theorem starts_queuedState : Starts loneWorker queuedState :=
  ⟨rfl, rfl, rfl, rfl, nofun⟩

/-- A test for `Attentive`: heartbeats find every instance driven. -/
def attentiveTest (state : WorkerState) : WorkerEvent → Bool
  | .claimCommits instanceIds =>
      (state.rowsOf instanceIds).all fun row => (state.active.get? row.instanceId).isNone
  | .heartbeatCommits =>
      match state.beat with
      | .beating held _ => held.all fun instanceId =>
          (state.active.get? instanceId).any fun task => task.phase = .driving
      | _ => true
  | .heartbeatResumes =>
      match state.beat with
      | .answered held alive => held.all fun instanceId => instanceId ∈ alive
      | _ => true
  | .releaseFails _ => false
  | _ => true

theorem attentive_of_test {event : WorkerEvent}
    (passed : attentiveTest state event = true) : Attentive loneWorker state event := by
  cases event with
  | claimCommits instanceIds =>
    intro row member
    exact Option.isNone_iff_eq_none.mp (List.all_eq_true.mp passed row member)
  | heartbeatCommits =>
    intro held now beat instanceId member _
    simp only [attentiveTest, beat] at passed
    have driven := List.all_eq_true.mp passed instanceId member
    cases found : state.active.get? instanceId with
    | none =>
      rw [found] at driven
      cases driven
    | some task =>
      rw [found, Option.any_some, decide_eq_true_eq] at driven
      exact .inl ⟨task, found, .inr (.inl driven)⟩
  | heartbeatResumes =>
    intro held alive beat instanceId member lost
    simp only [attentiveTest, beat] at passed
    exact absurd (decide_eq_true_eq.mp (List.all_eq_true.mp passed instanceId member)) lost
  | releaseFails => cases passed
  | _ => trivial

/-- Follow events that pass the test. -/
def followWorker (test : WorkerState → WorkerEvent → Bool) (events : List WorkerEvent)
    (state : WorkerState) : Option WorkerState :=
  events.foldlM (fun state event =>
    if test state event then state.step loneWorker event else none) state

theorem follows_of_followWorker {test : WorkerState → WorkerEvent → Bool}
    {may : WorkerState → WorkerEvent → Prop}
    (sound : ∀ state event, test state event = true → may state event)
    {events : List WorkerEvent} {start state : WorkerState}
    (followed : followWorker test events start = some state) :
    Relation.ReflTransGen (Follows loneWorker may) start state := by
  induction events generalizing start with
  | nil =>
    cases followed
    exact .refl
  | cons event rest ih =>
    obtain ⟨middle, stepped, later⟩ := Option.bind_eq_some_iff.mp followed
    simp only [Option.ite_none_right_eq_some] at stepped
    exact .head ⟨event, sound _ _ stepped.1, stepped.2⟩ (ih later)

/-- The worker holds the lease of the instance, for which it has no task and no
spawn pending. -/
def stranded (state : WorkerState) : Bool :=
  ((state.leases.get? "instance").any fun row =>
      row.workerId = "worker" && state.clock ≤ row.expiresAt) &&
    (state.active.get? "instance").isNone && state.pending.isEmpty

theorem stranded_eq_true (isStranded : stranded state = true) :
    HoldsLease loneWorker state "instance" ∧ ¬ HasTask state "instance" ∧
      ¬ IsPending state "instance" := by
  simp only [stranded, Bool.and_eq_true, Option.isNone_iff_eq_none, List.isEmpty_iff] at isStranded
  obtain ⟨⟨held, noTask⟩, nothing⟩ := isStranded
  refine ⟨?_, ?_, ?_⟩
  · cases stored : state.leases.get? "instance" with
    | none =>
      rw [stored] at held
      cases held
    | some row =>
      rw [stored, Option.any_some, Bool.and_eq_true, decide_eq_true_eq, decide_eq_true_eq] at held
      exact ⟨row, stored, held⟩
  · rintro ⟨task, found, _⟩
    rw [noTask] at found
    cases found
  · rintro ⟨lease, member, _⟩
    rw [nothing] at member
    cases member

/-- The instance is claimed, driven, kept alive and released, and then claimed
once more. -/
theorem claimed_leases_kept_twice :
    ∃ state, state.ignored = [] ∧ state.active.keys = ["instance"] ∧
      ∀ instanceId, HoldsLease loneWorker state instanceId →
        HasTask state instanceId ∨ IsPending state instanceId := by
  have facts : (followWorker attentiveTest
      [.beginClaim, .claimCommits ["instance"], .claimResumes, .driveBegins "instance",
        .tick 110, .beginHeartbeat, .heartbeatCommits, .heartbeatResumes, .driveEnds "instance",
        .releaseCommits "instance", .releaseResumes "instance", .beginClaim,
        .claimCommits ["instance"], .claimResumes] queuedState).map
          (fun state => state.active.keys) = some ["instance"] := by decide +kernel
  obtain ⟨state, followed, keys⟩ := Option.map_eq_some_iff.mp facts
  have kept := claimed_leases_kept loneWorker queuedState state starts_queuedState
    (follows_of_followWorker (fun _ _ => attentive_of_test) followed)
  exact ⟨state, kept.1, keys, kept.2⟩

/-- The claim loop claims the instance after the release and before the task has
removed itself, and ignores the lease; and a heartbeat that was under way during
the release extends the released lease.  Both times the worker is left with a
lease for which it has no task. -/
theorem leases_dropped :
    Starts loneWorker queuedState ∧
    (∃ state, Relation.ReflTransGen (Follows loneWorker fun _ _ => True) queuedState state ∧
      state.ignored ≠ [] ∧ HoldsLease loneWorker state "instance" ∧
      ¬ HasTask state "instance" ∧ ¬ IsPending state "instance") ∧
    ∃ state, Relation.ReflTransGen (Follows loneWorker fun _ _ => True) queuedState state ∧
      HoldsLease loneWorker state "instance" ∧ ¬ HasTask state "instance" ∧
      ¬ IsPending state "instance" := by
  refine ⟨starts_queuedState, ?_, ?_⟩
  · have facts : (followWorker (fun _ _ => true)
        [.beginClaim, .claimCommits ["instance"], .claimResumes, .driveBegins "instance",
          .tick 110, .beginClaim, .driveEnds "instance", .releaseCommits "instance",
          .claimCommits ["instance"], .claimResumes, .releaseResumes "instance"]
        queuedState).map (fun state => (state.ignored.length, stranded state)) =
        some (1, true) := by
      decide +kernel
    obtain ⟨state, followed, both⟩ := Option.map_eq_some_iff.mp facts
    refine ⟨state, follows_of_followWorker (fun _ _ _ => trivial) followed, ?_,
      stranded_eq_true (congrArg Prod.snd both)⟩
    intro empty
    rw [empty] at both
    cases both
  · have facts : (followWorker (fun _ _ => true)
        [.beginClaim, .claimCommits ["instance"], .claimResumes, .driveBegins "instance",
          .tick 110, .beginHeartbeat, .driveEnds "instance", .releaseCommits "instance",
          .heartbeatCommits, .releaseResumes "instance"] queuedState).map stranded =
        some true := by decide +kernel
    obtain ⟨state, followed, isStranded⟩ := Option.map_eq_some_iff.mp facts
    exact ⟨state, follows_of_followWorker (fun _ _ _ => trivial) followed,
      stranded_eq_true isStranded⟩

end AgentForge.Guarantees
