import AgentForge.Store.EventStore

/-!
# What a commit does

Inversion of the append transaction: when it commits, which checks it has passed
and what it has written.  A transaction that raises has written nothing.
-/

namespace AgentForge.Store.EventStore

open Domain Events Library

variable {store committed : EventStore} {instanceId tenantId : String} {events : List Event}
  {expectedVersion : Nat} {guard : Option Guard} {nextWakeupAt : Option Time}
  {inst : WorkflowInstance}

theorem transact_eq_ok
    (accepted : store.transact instanceId tenantId events expectedVersion guard nextWakeupAt =
      .ok committed) : (∀ event ∈ events, event.owner = (instanceId, tenantId)) ∧
      store.maxSequence instanceId = expectedVersion ∧
      ∃ inst, { store with events := store.events ++ events }.project instanceId tenantId =
          .ok (some inst) ∧
        { store with events := store.events ++ events }.refreshDerived instanceId inst events
          nextWakeupAt = .ok committed := by
  unfold transact at accepted
  by_cases foreign : (events.any fun event => event.owner ≠ (instanceId, tenantId)) = true
  · rw [if_pos foreign] at accepted
    cases accepted
  · rw [if_neg foreign] at accepted
    refine ⟨?_, ?_⟩
    · intro event member
      by_contra different
      exact foreign (List.any_eq_true.mpr ⟨event, member, by simpa using different⟩)
    · obtain ⟨_, _, accepted⟩ := bind_eq_ok.mp accepted
      by_cases stale : store.maxSequence instanceId ≠ expectedVersion
      · rw [if_pos stale] at accepted
        cases accepted
      · rw [if_neg stale] at accepted
        refine ⟨by simpa using stale, ?_⟩
        by_cases clash : store.violatesUnique instanceId events = true
        · rw [if_pos clash] at accepted
          cases accepted
        · rw [if_neg clash] at accepted
          obtain ⟨projected, projectedOk, accepted⟩ := bind_eq_ok.mp accepted
          cases projected with
          | none => cases accepted
          | some inst => exact ⟨inst, projectedOk, accepted⟩

/-- A transaction that commits has passed its guard. -/
theorem runGuard_of_transact
    (accepted : store.transact instanceId tenantId events expectedVersion guard nextWakeupAt =
      .ok committed) : store.runGuard guard = .ok () := by
  unfold transact at accepted
  split at accepted
  · cases accepted
  · obtain ⟨⟨⟩, passed, _⟩ := bind_eq_ok.mp accepted
    exact passed

theorem events_of_refreshDerived
    (refreshed : store.refreshDerived instanceId inst events nextWakeupAt = .ok committed) :
    committed.events = store.events := by
  unfold refreshDerived at refreshed
  simp only at refreshed
  split at refreshed
  · split at refreshed
    · cases refreshed
    · cases refreshed
      rfl
  · cases refreshed
    rfl

theorem refreshDerived_eq_ok
    (refreshed : store.refreshDerived instanceId inst events nextWakeupAt = .ok committed)
    (own : inst.instanceId = instanceId) : committed.events = store.events ∧
      (∀ other, other ≠ instanceId → committed.snapshots.get? other = store.snapshots.get? other) ∧
      ((∃ snap, store.snapshots.get? instanceId = some snap ∧
          committed.snapshots.get? instanceId = some snap) ∨
        ∃ snap, committed.snapshots.get? instanceId = some snap ∧ snap.version = inst.version ∧
          snap.state = inst) := by
  subst own
  unfold refreshDerived at refreshed
  simp only at refreshed
  split at refreshed
  · split at refreshed
    · cases refreshed
    · cases refreshed
      refine ⟨rfl, ?_, .inr ⟨_, Dict.get?_set_self _ _ _, rfl, rfl⟩⟩
      intro other different
      exact Dict.get?_set_ne _ different _
  · cases refreshed
    refine ⟨rfl, fun _ _ => rfl, .inl ?_⟩
    rename_i notDue
    cases stored : store.snapshots.get? inst.instanceId with
    | none => simp [snapshotDue, upsertIndex, stored] at notDue
    | some snap => exact ⟨snap, rfl, stored⟩

/-- A commit fails and changes nothing, or its transaction is accepted; only a
commit without events raises after that. -/
theorem commit_cases (store : EventStore) (instanceId tenantId : String) (events : List Event)
    (expectedVersion : Nat) (guard : Option Guard) (nextWakeupAt : Option Time) :
    (∃ failure, store.commit instanceId tenantId events expectedVersion guard nextWakeupAt =
        (store, .error failure)) ∨ ∃ committed,
        store.transact instanceId tenantId events expectedVersion guard nextWakeupAt =
          .ok committed ∧ ((events = [] ∧
            store.commit instanceId tenantId events expectedVersion guard nextWakeupAt =
              (committed, .error .indexError)) ∨ ∃ version,
            store.commit instanceId tenantId events expectedVersion guard nextWakeupAt =
              (committed, .ok (version, events))) := by
  unfold commit
  cases accepted :
      store.transact instanceId tenantId events expectedVersion guard nextWakeupAt with
  | error failure => exact .inl ⟨failure, rfl⟩
  | ok committed =>
    refine .inr ⟨committed, rfl, ?_⟩
    cases last : events.getLast? with
    | none => exact .inl ⟨List.getLast?_eq_none_iff.mp last, rfl⟩
    | some event => exact .inr ⟨event.sequence, rfl⟩

end AgentForge.Store.EventStore
