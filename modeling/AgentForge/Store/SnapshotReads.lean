import AgentForge.Events.Seeding
import AgentForge.Store.Commits

/-!
# Snapshot reads against full replay

A reader folds the events after the latest snapshot on top of it, with the
definition it was given.  Commits fold without a definition, and the first
commit of an instance already writes a snapshot.  This module says what the
tables of a reachable store hold, and exactly when a snapshot read and a replay
of the whole log agree.
-/

namespace AgentForge.Store

open Domain Events Library

variable {events before after : List Event} {store : EventStore}

namespace EventStore

/-! ## Ordered tails -/

private theorem pairwise_of_sequence {first : Nat}
    (numbered : events.map Event.sequence = List.range' first events.length) :
    events.Pairwise fun earlier later => earlier.sequence ≤ later.sequence := by
  have increasing : (events.map Event.sequence).Pairwise (· < ·) := by
    rw [numbered]
    exact List.pairwise_lt_range'
  rw [List.pairwise_map] at increasing
  exact increasing.imp Nat.le_of_lt

private theorem sequence_bounds {first : Nat}
    (numbered : events.map Event.sequence = List.range' first events.length) {event : Event}
    (member : event ∈ events) :
    first ≤ event.sequence ∧ event.sequence < first + events.length := by
  have listed := List.mem_map_of_mem (f := Event.sequence) member
  rw [numbered] at listed
  exact List.mem_range'_1.mp listed

private theorem sequence_of_append (numbered : (before ++ after).map Event.sequence =
      List.range' 1 (before ++ after).length) :
    before.map Event.sequence = List.range' 1 before.length ∧
      after.map Event.sequence = List.range' (1 + before.length) after.length := by
  rw [List.map_append, List.length_append, ← List.range'_append, Nat.one_mul] at numbered
  exact List.append_inj numbered (by simp)

/-- Rows numbered from 1 are read back in order, cut at any version. -/
theorem orderBySequence_filter (numbered : (before ++ after).map Event.sequence =
      List.range' 1 (before ++ after).length) :
    orderBySequence ((before ++ after).filter fun event => before.length < event.sequence) =
      after := by
  obtain ⟨numberedBefore, numberedAfter⟩ := sequence_of_append numbered
  have dropped : (before.filter fun event => before.length < event.sequence) = [] := by
    rw [List.filter_eq_nil_iff]
    intro event member
    have bounds := sequence_bounds numberedBefore member
    simp only [decide_eq_true_eq]
    omega
  have kept : (after.filter fun event => before.length < event.sequence) = after := by
    rw [List.filter_eq_self]
    intro event member
    have bounds := sequence_bounds numberedAfter member
    simp only [decide_eq_true_eq]
    omega
  rw [List.filter_append, dropped, kept, List.nil_append]
  exact (pairwise_of_sequence numberedAfter).insertionSort_eq

/-! ## What the tables hold -/

/-- The rows of an instance, cut where its latest snapshot was taken: the whole
log folds to `inst`, and the snapshot is the fold of the rows before the cut. -/
structure SnapshotCut (store : EventStore) (instanceId : String) (inst : WorkflowInstance)
    (snap : Snapshot) (before after : List Event) : Prop where
  rows : store.rowsOf instanceId = before ++ after
  folded : fold (before ++ after) = .ok inst
  snapshot : store.snapshots.get? instanceId = some snap
  state : fold before = .ok snap.state
  version : snap.version = before.length
  owners : ∀ event ∈ before ++ after, event.owner = (instanceId, inst.tenantId)

/-- Every instance has no rows and no snapshot, or a log with a snapshot cut. -/
def Sound (store : EventStore) : Prop :=
  ∀ instanceId,
    (store.rowsOf instanceId = [] ∧ store.snapshots.get? instanceId = none) ∨
      ∃ inst snap before after, store.SnapshotCut instanceId inst snap before after

/-- The tail after a snapshot is the part of the log after its cut. -/
theorem SnapshotCut.tailAfter {instanceId : String} {inst : WorkflowInstance} {snap : Snapshot}
    (cut : store.SnapshotCut instanceId inst snap before after) :
    store.tailAfter instanceId snap.version = after := by
  unfold EventStore.tailAfter
  rw [cut.rows, cut.version]
  exact orderBySequence_filter (sequence_of_fold cut.folded)

theorem rowsOf_append (store : EventStore) (events : List Event) (instanceId : String) :
    { store with events := store.events ++ events }.rowsOf instanceId =
      store.rowsOf instanceId ++ events.filter fun event => event.instanceId = instanceId := by
  simp [rowsOf]

theorem filter_instanceId_self {instanceId tenantId : String}
    (own : ∀ event ∈ events, event.owner = (instanceId, tenantId)) :
    (events.filter fun event => event.instanceId = instanceId) = events := by
  rw [List.filter_eq_self]
  intro event member
  simp [(Prod.mk.inj (own event member)).1]

theorem filter_instanceId_other {instanceId tenantId other : String}
    (own : ∀ event ∈ events, event.owner = (instanceId, tenantId))
    (different : other ≠ instanceId) :
    (events.filter fun event => event.instanceId = other) = [] := by
  rw [List.filter_eq_nil_iff]
  intro event member
  simp [(Prod.mk.inj (own event member)).1, Ne.symm different]

section Projection

variable {store : EventStore} {instanceId tenantId : String}
  {definition : Option WorkflowDefinition} {inst : WorkflowInstance} {snap : Snapshot}

theorem project_of_snapshot (stored : store.snapshots.get? instanceId = some snap)
    (required : Bool) : store.project instanceId tenantId definition required =
      ownedBy tenantId required
        (fold (store.tailAfter instanceId snap.version) definition (some snap.state)) := by
  unfold project
  simp [stored]

theorem ownedBy_eq_some {required : Bool} {folded : Except FoldError WorkflowInstance}
    (owned : ownedBy tenantId required folded = .ok (some inst)) :
    folded = .ok inst ∧ inst.tenantId = tenantId := by
  cases folded with
  | error failure => cases owned
  | ok found =>
    unfold ownedBy at owned
    by_cases own : found.tenantId = tenantId
    · simp only [own, if_true] at owned
      cases owned
      exact ⟨rfl, own⟩
    · cases required <;> simp [own] at owned

theorem project_eq_some {required : Bool}
    (projected : store.project instanceId tenantId definition required = .ok (some inst)) :
    fold (store.tailAfter instanceId
          (((store.snapshots.get? instanceId).map Snapshot.version).getD 0)) definition
        ((store.snapshots.get? instanceId).map Snapshot.state) = .ok inst ∧
      inst.tenantId = tenantId := by
  unfold project at projected
  simp only at projected
  split at projected
  · split at projected <;> cases projected
  · exact ownedBy_eq_some projected

end Projection

/-! ## Commits keep the tables sound -/

theorem foldl_max_range' (count : Nat) : (List.range' 1 count).foldl max 0 = count := by
  induction count with
  | zero => rfl
  | succ count ih =>
    rw [List.range'_concat, List.foldl_append, ih]
    simp only [List.foldl_cons, List.foldl_nil]
    omega

/-- In sound tables the highest number of an instance is the length of its log. -/
theorem Sound.maxSequence (sound : store.Sound) (instanceId : String) :
    store.maxSequence instanceId = (store.rowsOf instanceId).length ∧
      (store.rowsOf instanceId).map Event.sequence =
        List.range' 1 (store.rowsOf instanceId).length := by
  have numbered : (store.rowsOf instanceId).map Event.sequence =
      List.range' 1 (store.rowsOf instanceId).length := by
    rcases sound instanceId with ⟨empty, _⟩ | ⟨inst, snap, before, after, cut⟩
    · simp [empty]
    · rw [cut.rows]
      exact sequence_of_fold cut.folded
  refine ⟨?_, numbered⟩
  unfold EventStore.maxSequence
  rw [numbered, foldl_max_range']

section Insertion

variable {store : EventStore} {instanceId tenantId : String} {events : List Event}
  {inst : WorkflowInstance}

/-- The cut that a commit finds: what was stored before it, followed by its own
events. -/
private theorem fold_of_project (sound : store.Sound)
    (own : ∀ event ∈ events, event.owner = (instanceId, tenantId))
    (numbered : events.map Event.sequence =
      List.range' (1 + (store.rowsOf instanceId).length) events.length)
    (projected : { store with events := store.events ++ events }.project instanceId tenantId =
      .ok (some inst)) : fold (store.rowsOf instanceId ++ events) = .ok inst ∧
      ∀ event ∈ store.rowsOf instanceId ++ events, event.owner = (instanceId, inst.tenantId) := by
  obtain ⟨projectedOk, tenant⟩ := project_eq_some projected
  have allNumbered : (store.rowsOf instanceId ++ events).map Event.sequence =
      List.range' 1 (store.rowsOf instanceId ++ events).length := by
    rw [List.map_append, (sound.maxSequence instanceId).2, numbered, List.length_append]
    simp
  have rows : { store with events := store.events ++ events }.rowsOf instanceId =
      store.rowsOf instanceId ++ events := by
    rw [rowsOf_append, filter_instanceId_self own]
  subst tenant
  rcases sound instanceId with ⟨empty, unstored⟩ | ⟨old, snap, before, after, cut⟩
  · simp only [unstored, Option.map_none, Option.getD_none, EventStore.tailAfter, rows]
      at projectedOk
    rw [empty] at allNumbered projectedOk ⊢
    have tail := orderBySequence_filter allNumbered
    exact ⟨tail ▸ projectedOk, own⟩
  · simp only [cut.snapshot, Option.map_some, Option.getD_some, EventStore.tailAfter, rows]
      at projectedOk
    rw [cut.rows, List.append_assoc] at allNumbered projectedOk ⊢
    rw [cut.version, orderBySequence_filter allNumbered] at projectedOk
    have folded := (fold_append cut.state).mpr projectedOk
    refine ⟨folded, ?_⟩
    rw [← List.append_assoc] at folded ⊢
    have sameOwner := owner_of_fold_base ((fold_append cut.folded).mp folded)
    intro event member
    rcases List.mem_append.mp member with stored | inserted
    · rw [cut.owners event stored, (Prod.mk.inj sameOwner).2]
    · exact own event inserted

private theorem sound_of_refresh {committed : EventStore} {nextWakeupAt : Option Time}
    (sound : store.Sound) (own : ∀ event ∈ events, event.owner = (instanceId, tenantId))
    (numbered : events.map Event.sequence =
      List.range' (1 + (store.rowsOf instanceId).length) events.length)
    (projected : { store with events := store.events ++ events }.project instanceId tenantId =
      .ok (some inst))
    (refreshed : { store with events := store.events ++ events }.refreshDerived instanceId inst
      events nextWakeupAt = .ok committed) : committed.Sound := by
  obtain ⟨folded, owners⟩ := fold_of_project sound own numbered projected
  have ownInstance : inst.instanceId = instanceId := by
    cases rows : store.rowsOf instanceId ++ events with
    | nil =>
      rw [rows] at folded
      exact absurd rfl (ne_nil_of_fold folded)
    | cons first rest =>
      rw [rows] at folded owners
      have owner := (owner_of_fold folded).trans (owners first List.mem_cons_self)
      exact (Prod.mk.inj owner).1
  obtain ⟨sameEvents, sameOthers, snapshot⟩ := refreshDerived_eq_ok refreshed ownInstance
  have rows (other : String) : committed.rowsOf other =
      store.rowsOf other ++ events.filter fun event => event.instanceId = other := by
    rw [← rowsOf_append]
    unfold rowsOf
    rw [sameEvents]
  intro other
  by_cases same : other = instanceId
  · subst same
    right
    rcases snapshot with ⟨snap, stored, kept⟩ | ⟨snap, fresh, version, state⟩
    · rcases sound other with ⟨_, unstored⟩ | ⟨old, oldSnap, before, after, cut⟩
      · cases unstored.symm.trans stored
      · cases cut.snapshot.symm.trans stored
        rw [cut.rows, List.append_assoc] at folded owners
        refine ⟨inst, snap, before, after ++ events, ?_, folded, kept, cut.state, cut.version,
          owners⟩
        rw [rows, filter_instanceId_self own, cut.rows, List.append_assoc]
    · refine ⟨inst, snap, store.rowsOf other ++ events, [], ?_, ?_, fresh, ?_, ?_, ?_⟩
      · rw [rows, filter_instanceId_self own, List.append_nil]
      · rwa [List.append_nil]
      · rwa [state]
      · rw [version, version_of_fold folded]
      · rwa [List.append_nil]
  · rw [sameOthers other same, rows, filter_instanceId_other own same, List.append_nil]
    rcases sound other with empty | ⟨old, snap, before, after, cut⟩
    · exact .inl empty
    · refine .inr ⟨old, snap, before, after, ?_, cut.folded, ?_, cut.state, cut.version,
        cut.owners⟩
      · rw [rows, filter_instanceId_other own same, List.append_nil, cut.rows]
      · rw [sameOthers other same, cut.snapshot]

theorem Sound.commit {expectedVersion : Nat} (sound : store.Sound)
    (numbered : events.map Event.sequence = List.range' (1 + expectedVersion) events.length)
    (guard : Option Guard) (nextWakeupAt : Option Time) :
    (store.commit instanceId tenantId events expectedVersion guard nextWakeupAt).1.Sound := by
  unfold EventStore.commit
  cases accepted :
      store.transact instanceId tenantId events expectedVersion guard nextWakeupAt with
  | error failure => exact sound
  | ok committed =>
    obtain ⟨own, current, inst, projected, refreshed⟩ := transact_eq_ok accepted
    rw [← current, (sound.maxSequence instanceId).1] at numbered
    have soundCommitted := sound_of_refresh sound own numbered projected refreshed
    cases events.getLast? with
    | none => exact soundCommitted
    | some last => exact soundCommitted

end Insertion

private theorem sequence_of_misnumbered {expectedVersion offset : Nat}
    (checked : misnumbered expectedVersion offset events = none) :
    events.map Event.sequence = List.range' (expectedVersion + offset) events.length := by
  induction events generalizing offset with
  | nil => rfl
  | cons event rest ih =>
    unfold misnumbered at checked
    split at checked
    · cases checked
    · rename_i expected
      simp only [List.map_cons, List.length_cons, List.range'_succ, ih checked]
      simp only [ne_eq, Decidable.not_not] at expected
      rw [expected, Nat.add_assoc]

/-- Every store that appends build up is sound. -/
theorem Reachable.sound (reachable : Reachable store) : store.Sound := by
  induction reachable with
  | empty => exact fun _ => .inl ⟨rfl, rfl⟩
  | append instanceId tenantId events expectedVersion guard nextWakeupAt _ ih =>
    unfold EventStore.append
    split
    · exact ih
    · split
      · exact ih
      · rename_i checked
        have numbered := sequence_of_misnumbered checked
        rw [Nat.add_comm] at numbered
        exact ih.commit numbered guard nextWakeupAt
  | appendNew instanceId tenantId drafts expectedVersion guard nextWakeupAt _ ih =>
    exact ih.commit (sequence_resequence expectedVersion drafts) guard nextWakeupAt

/-! ## Agreement -/

/-- A read through the snapshot and a replay of the whole log return the same
instance, and the read knows every step of the definition. -/
def ReadsAgree (store : EventStore) (instanceId tenantId : String)
    (definition : WorkflowDefinition) : Prop :=
  ∃ read replay,
    store.getInstance instanceId tenantId (some definition) = .ok read ∧
      store.stateAt instanceId tenantId (store.maxSequence instanceId) (some definition) =
        .ok replay ∧
      Option.Rel WorkflowInstance.Same read replay ∧
      ∀ inst, read = some inst → ∀ stepId ∈ definition.stepIds, stepId ∈ inst.stepStates.keys

/-- Nothing is left for the definition to seed: the stored events already name
each of its steps, or a genesis event lies after the latest snapshot. -/
def NothingToSeed (store : EventStore) (instanceId tenantId : String)
    (definition : WorkflowDefinition) : Prop :=
  ∀ inst, store.getInstance instanceId tenantId = .ok (some inst) →
    (∃ event ∈ store.tailAfter instanceId
        (((store.snapshots.get? instanceId).map Snapshot.version).getD 0),
      event.isGenesis = true) ∨
      ∀ stepId ∈ definition.stepIds, stepId ∈ inst.stepStates.keys

section Agreement

variable {store : EventStore} {instanceId : String} {inst : WorkflowInstance}
  {snap : Snapshot} {before after : List Event}

variable (cut : store.SnapshotCut instanceId inst snap before after)

include cut

theorem SnapshotCut.project (tenantId : String) (definition : Option WorkflowDefinition) :
    store.getInstance instanceId tenantId definition =
      ownedBy tenantId false (fold after definition (some snap.state)) := by
  unfold EventStore.getInstance
  rw [project_of_snapshot cut.snapshot, cut.tailAfter]

/-- Rows of the owning tenant are all rows; another tenant sees none. -/
theorem SnapshotCut.load (tenantId : String) : store.load instanceId tenantId =
      if inst.tenantId = tenantId then before ++ after else [] := by
  have numbered := sequence_of_fold cut.folded
  have filtered : (store.events.filter fun event =>
      event.instanceId = instanceId && event.tenantId = tenantId && 0 < event.sequence) =
      ((before ++ after).filter fun event => event.tenantId = tenantId && 0 < event.sequence) := by
    rw [← cut.rows, rowsOf, List.filter_filter]
    congr 1
    funext event
    simp [Bool.and_comm, Bool.and_assoc]
  unfold EventStore.load
  rw [filtered]
  by_cases own : inst.tenantId = tenantId
  · rw [if_pos own]
    have all : ((before ++ after).filter fun event =>
        event.tenantId = tenantId && 0 < event.sequence) = before ++ after := by
      rw [List.filter_eq_self]
      intro event member
      have tenant := (Prod.mk.inj (cut.owners event member)).2
      have bounds := sequence_bounds numbered member
      simp only [Bool.and_eq_true, decide_eq_true_eq]
      exact ⟨tenant.trans own, by omega⟩
    rw [all]
    exact (pairwise_of_sequence numbered).insertionSort_eq
  · rw [if_neg own]
    have nothing : ((before ++ after).filter fun event =>
        event.tenantId = tenantId && 0 < event.sequence) = [] := by
      rw [List.filter_eq_nil_iff]
      intro event member
      have tenant := (Prod.mk.inj (cut.owners event member)).2
      simp [tenant, own]
    rw [nothing]
    rfl

theorem SnapshotCut.stateAt (sound : store.Sound) (definition : Option WorkflowDefinition)
    {replayed : WorkflowInstance} (replay : fold (before ++ after) definition = .ok replayed)
    (tenantId : String) :
    store.stateAt instanceId tenantId (store.maxSequence instanceId) definition =
      .ok (if inst.tenantId = tenantId then some replayed else none) := by
  unfold EventStore.stateAt
  rw [cut.load, (sound.maxSequence instanceId).1, cut.rows]
  by_cases own : inst.tenantId = tenantId
  · have all : ((before ++ after).filter fun event =>
        event.sequence ≤ (before ++ after).length) = before ++ after := by
      rw [List.filter_eq_self]
      intro event member
      have bounds := sequence_bounds (sequence_of_fold cut.folded) member
      simp only [decide_eq_true_eq]
      omega
    have nonempty : (before ++ after).isEmpty = false := by
      simpa using ne_nil_of_fold cut.folded
    simp only [if_pos own, all, nonempty, replay]
    rfl
  · simp [own]

/-- On the log of its own tenant, reads agree exactly if nothing is left to
seed. -/
private theorem SnapshotCut.agree_iff (sound : store.Sound) (definition : WorkflowDefinition) :
    store.ReadsAgree instanceId inst.tenantId definition ↔
      (∃ event ∈ after, event.isGenesis = true) ∨
        ∀ stepId ∈ definition.stepIds, stepId ∈ inst.stepStates.keys := by
  have tailOk := (fold_append cut.state).mp cut.folded
  obtain ⟨read, readOk, relatedRead⟩ :=
    (fold_base_agree (some definition) snap.state after).ok_right tailOk
  obtain ⟨replay, replayOk, relatedReplay⟩ :=
    (fold_agree (some definition) (before ++ after)).ok_right cut.folded
  have readEq : store.getInstance instanceId inst.tenantId (some definition) = .ok (some read) := by
    have owner := (owner_of_fold_base readOk).trans (owner_of_fold_base tailOk).symm
    rw [cut.project, readOk]
    simp [ownedBy, (Prod.mk.inj owner).2]
  have replayEq := cut.stateAt sound (some definition) replayOk inst.tenantId
  rw [if_pos rfl] at replayEq
  have seedsAll (stepId : String) :
      stepId ∈ (before ++ after).flatMap (seedsOf (some definition)) ↔
        stepId ∈ definition.stepIds := by
    rw [mem_flatMap_seedsOf]
    exact and_iff_right (exists_genesis_of_fold cut.folded)
  have sameIff := relatedRead.same_iff relatedReplay (by
    intro stepId seed
    rw [seedsAll]
    exact (mem_flatMap_seedsOf.mp seed).2)
  simp only [seedsAll, mem_flatMap_seedsOf] at sameIff
  have condition : (∀ stepId ∈ definition.stepIds,
      ((∃ event ∈ after, event.isGenesis = true) ∧ stepId ∈ definition.stepIds) ∨
        stepId ∈ inst.stepStates.keys) ↔
      (∃ event ∈ after, event.isGenesis = true) ∨
        ∀ stepId ∈ definition.stepIds, stepId ∈ inst.stepStates.keys := by
    by_cases genesis : ∃ event ∈ after, event.isGenesis = true
    · simp only [genesis, true_and, true_or, iff_true]
      exact fun stepId member => .inl member
    · simp [genesis]
  rw [← condition, ← sameIff]
  constructor
  · rintro ⟨_, _, readFound, replayFound, related, _⟩
    cases readEq.symm.trans readFound
    cases replayEq.symm.trans replayFound
    cases related with
    | some same => exact same
  · intro same
    refine ⟨_, _, readEq, replayEq, .some same, ?_⟩
    rintro _ ⟨rfl⟩ stepId member
    have known := relatedReplay.mem_keys ((seedsAll stepId).mpr member)
    rw [Dict.mem_keys_iff_get?] at known ⊢
    rwa [same.2 stepId]

omit cut

/-- In every store that appends build up, a snapshot read equals the full
replay exactly when the definition has nothing left to seed. -/
theorem readsAgree_iff_nothingToSeed {store : EventStore} (reachable : Reachable store)
    (instanceId tenantId : String) (definition : WorkflowDefinition) :
    store.ReadsAgree instanceId tenantId definition ↔
      store.NothingToSeed instanceId tenantId definition := by
  have sound := reachable.sound
  unfold NothingToSeed
  rcases sound instanceId with ⟨empty, unstored⟩ | ⟨inst, snap, before, after, cut⟩
  · have absent (definition : Option WorkflowDefinition) :
        store.getInstance instanceId tenantId definition = .ok none := by
      simp [getInstance, project, unstored, EventStore.tailAfter, empty, orderBySequence]
    have unloaded : store.load instanceId tenantId = [] := by
      have filtered : (store.events.filter fun event =>
          event.instanceId = instanceId && event.tenantId = tenantId &&
            0 < event.sequence) = [] := by
        rw [List.filter_eq_nil_iff]
        intro event member
        have foreign := List.filter_eq_nil_iff.mp empty event member
        simp_all
      simp [load, filtered, orderBySequence]
    simp only [absent, Except.ok.injEq, reduceCtorEq, false_implies, implies_true, iff_true]
    refine ⟨none, none, absent _, ?_, .none, by simp⟩
    simp [EventStore.stateAt, unloaded]
  · have tailOk := (fold_append cut.state).mp cut.folded
    rw [cut.project, tailOk, cut.snapshot, Option.map_some, Option.getD_some, cut.tailAfter]
    by_cases own : inst.tenantId = tenantId
    · subst own
      simp [cut.agree_iff sound definition, ownedBy]
    · obtain ⟨read, readOk, relatedRead⟩ :=
        (fold_base_agree (some definition) snap.state after).ok_right tailOk
      obtain ⟨replay, replayOk, _⟩ :=
        (fold_agree (some definition) (before ++ after)).ok_right cut.folded
      have owner := (owner_of_fold_base readOk).trans (owner_of_fold_base tailOk).symm
      simp only [ownedBy, own, if_false, Except.ok.injEq, reduceCtorEq, false_implies,
        implies_true, iff_true]
      refine ⟨none, none, ?_, ?_, .none, by simp⟩
      · rw [cut.project, readOk]
        simp [ownedBy, (Prod.mk.inj owner).2, own]
      · rw [cut.stateAt sound (some definition) replayOk, if_neg own]

end Agreement

/-! ## The first commit -/

/-- A definition with the single step `a`. -/
def singleStep : WorkflowDefinition where
  workflowId := "w"
  version := "1.0.0"
  steps := [{ stepId := "a", agentType := "echo_agent" }]
  valid := rfl

/-- A genesis event for `singleStep`. -/
def genesisOfSingleStep : Event where
  eventId := "e1"
  instanceId := "i"
  tenantId := "t"
  sequence := 1
  occurredAt := 0
  payload := .instanceCreated "w" "1.0.0" Dict.empty none

/-- The event that makes step `a` runnable. -/
def readyOfSingleStep : Event where
  eventId := "e2"
  instanceId := "i"
  tenantId := "t"
  sequence := 2
  occurredAt := 0
  payload := .stepStatusChanged "a" .pending .ready none

/-- Right after an instance is created, a read with its definition does not know
the definition's step, while the replay of the log does. -/
theorem not_readsAgree_after_genesis :
    Reachable (EventStore.append {} "i" "t" [genesisOfSingleStep] 0).1 ∧
      ¬ (EventStore.append {} "i" "t" [genesisOfSingleStep] 0).1.ReadsAgree "i" "t"
        singleStep := by
  refine ⟨.append "i" "t" _ 0 none none .empty, ?_⟩
  rintro ⟨read, _, readOk, _, _, known⟩
  have keys : ((EventStore.append {} "i" "t" [genesisOfSingleStep] 0).1.getInstance "i" "t"
      (some singleStep)).toOption.join.map (fun inst => inst.stepStates.keys) = some [] := rfl
  rw [readOk] at keys
  cases read with
  | none => cases keys
  | some inst =>
      have empty : inst.stepStates.keys = [] := Option.some.inj keys
      have member := known inst rfl "a" (by decide)
      rw [empty] at member
      cases member

/-- Once the log names the step, the reads agree. -/
theorem readsAgree_iff_nothingToSeed_after_ready :
    (EventStore.append {} "i" "t" [genesisOfSingleStep, readyOfSingleStep] 0).1.ReadsAgree
      "i" "t" singleStep := by
  refine (readsAgree_iff_nothingToSeed (.append "i" "t" _ 0 none none .empty) "i" "t"
    singleStep).mpr ?_
  intro inst readOk
  right
  have keys : ((EventStore.append {} "i" "t" [genesisOfSingleStep, readyOfSingleStep] 0
      ).1.getInstance "i" "t").toOption.join.map (fun inst => inst.stepStates.keys) =
      some ["a"] := rfl
  rw [readOk] at keys
  rw [show inst.stepStates.keys = ["a"] from Option.some.inj keys]
  decide

end EventStore

end AgentForge.Store
