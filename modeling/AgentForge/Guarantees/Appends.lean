import AgentForge.Store.Appending
import AgentForge.Store.SnapshotReads

/-!
# Appends side by side

Processes that append to one log may read the same version.  The unique numbers of
the rows let only one of them insert its batch, which fixes the tables until that
transaction ends.  So the transactions that commit could as well have run one
after the other, each as a whole.
-/

namespace AgentForge.Guarantees

open Domain Events Library Store

/-- What calls make of the tables, one after the other and each in a single step;
all of them succeed. -/
inductive Serial (base : EventStore) : List Append → EventStore → Prop
  | nil : Serial base [] base
  | commit {calls : List Append} {store after : EventStore} {call : Append}
      {result : Nat × List Event} : Serial base calls store →
      store.commit call.instanceId call.tenantId call.events call.expectedVersion none
        call.nextWakeupAt = (after, .ok result) →
      Serial base (calls ++ [call]) after

/-! ## One call -/

/-- The events of the call are its own. -/
def OwnBatch (call : Append) : Prop :=
  ∀ event ∈ call.events, event.owner = (call.instanceId, call.tenantId)

/-- When a call performs its statements. -/
def WritesWhen (writer : Writer) : AppendOp → Prop
  | .insert events => writer.stage = .checked ∧ events = writer.events ∧ OwnBatch writer.toAppend
  | .project => writer.stage = .inserted
  | .refreshDerived inst => writer.stage = .projected inst
  | .commit => writer.stage = .refreshed
  | _ => writer.stage = .begun

theorem safe_commitAppend {instanceId : String} (txn : Nat) (call : Append) :
    Program.Safe (Pool.alone (appending instanceId) fun _ _ _ => True) WritesWhen
      (fun _ _ => True) (fun _ _ => True) call.commit { toAppend := call, txn := txn } := by
  unfold Append.commit
  split
  · trivial
  next own =>
  refine ⟨rfl, ?_⟩
  rintro (failure | _) _ ⟨_, rfl⟩
  · trivial
  refine ⟨rfl, ?_⟩
  rintro current _ ⟨_, rfl⟩
  by_cases same : current = call.expectedVersion
  · subst same
    change Program.Safe _ _ _ _ (ite _ _ _) _
    rw [if_neg (not_not_intro rfl)]
    refine ⟨⟨if_pos rfl, rfl, by simpa [OwnBatch, appending, Writer.track] using own⟩, ?_⟩
    rintro (failure | _ | _) _ ⟨_, rfl⟩
    · trivial
    · trivial
    refine ⟨rfl, ?_⟩
    rintro (failure | inst) _ ⟨_, rfl⟩
    · trivial
    refine ⟨rfl, ?_⟩
    rintro (failure | _) _ ⟨_, rfl⟩
    · trivial
    refine ⟨rfl, ?_⟩
    rintro (failure | _) _ _
    · trivial
    · change Program.Safe _ _ _ _ (match call.events.getLast? with | _ => _) _
      cases call.events.getLast? <;> trivial
  · change Program.Safe _ _ _ _ (ite _ _ _) _
    rw [if_pos same]
    exact ⟨if_neg same, fun _ _ _ => trivial⟩

/-! ## Calls side by side -/

/-- The batch of a call is inserted, at the end of the log. -/
structure Ahead (store pending : EventStore) (call : Append) : Prop where
  owned : OwnBatch call
  inserted : pending.events = call.events
  current : (store.rowsOf call.instanceId).length = call.expectedVersion

/-- The tables with the batch of a call. -/
def withBatch (store : EventStore) (call : Append) : EventStore :=
  { store with events := store.events ++ call.events }

/-- What a call at some stage knows of the tables and has written. -/
def Knows (store pending : EventStore) (call : Append) : AppendStage → Prop
  | .begun => True
  | .checked => call.expectedVersion ≤ (store.rowsOf call.instanceId).length
  | .inserted => Ahead store pending call
  | .projected inst => Ahead store pending call ∧
      (withBatch store call).project call.instanceId call.tenantId = .ok (some inst)
  | .refreshed => Ahead store pending call ∧ ∃ inst derived,
      (withBatch store call).project call.instanceId call.tenantId = .ok (some inst) ∧
      (withBatch store call).refreshDerived call.instanceId inst call.events
        call.nextWakeupAt = .ok derived ∧ pending = { derived with events := call.events }

/-- A call at this stage has inserted nothing. -/
def Waits : AppendStage → Prop
  | .begun | .checked => True
  | _ => False

/-- What holds of a call. -/
structure Placed (instanceId : String) (world : AppendWorld) (i : Nat) (writer : Writer) :
    Prop where
  txn : writer.txn = i
  ofInstance : writer.instanceId = instanceId
  some : writer.events ≠ []
  numbered : writer.events.map Event.sequence =
    List.range' (1 + writer.expectedVersion) writer.events.length
  knows : Knows world.store (world.pending i) writer.toAppend writer.stage

/-- What holds of all calls: only one of them has inserted its batch. -/
structure Racing (instanceId : String) (base : EventStore) (world : AppendWorld)
    (all : Nat → Option Writer) : Prop where
  placed : ∀ i writer, all i = some writer → Placed instanceId world i writer
  sole : ∃ leader, ∀ i writer, all i = some writer → ¬ Waits writer.stage → i = leader
  sound : world.store.Sound
  serial : Serial base world.commits world.store

section Steps

variable {instanceId : String} {base : EventStore} {world next : AppendWorld}
  {all : Nat → Option Writer} {i : Nat} {writer after : Writer}

theorem Ahead.seenBy (ahead : Ahead world.store (world.pending i) writer.toAppend) :
    world.seenBy i = withBatch world.store writer.toAppend := by
  rw [AppendWorld.seenBy, ahead.inserted, withBatch]

variable (placed : Placed instanceId world i writer)

include placed

/-- The first number of a batch is the next one after the version. -/
theorem Placed.first : ∃ event ∈ writer.events, event.sequence = 1 + writer.expectedVersion := by
  apply List.mem_map.mp
  rw [placed.numbered, List.mem_range'_1]
  have := List.length_pos_iff.mpr placed.some
  omega

theorem Placed.ahead (leads : ¬ Waits writer.stage) :
    Ahead world.store (world.pending i) writer.toAppend := by
  have knows := placed.knows
  generalize writer.stage = stage at knows leads
  cases stage with
  | begun | checked => exact absurd trivial leads
  | inserted => exact knows
  | projected | refreshed => exact knows.1

/-- The statements of a call amount to the commit in a single step. -/
theorem Placed.transact (sound : world.store.Sound) (refreshed : writer.stage = .refreshed) :
    ∃ derived result,
      world.pending i = { derived with events := writer.events } ∧
      derived.events = world.store.events ++ writer.events ∧
      world.store.commit writer.instanceId writer.tenantId writer.events writer.expectedVersion
        none writer.nextWakeupAt = (derived, .ok result) := by
  have knows := placed.knows
  rw [refreshed] at knows
  obtain ⟨ahead, inst, derived, projected, isDerived, pending⟩ := knows
  obtain ⟨highest, rows⟩ := sound.maxSequence writer.instanceId
  rw [ahead.current] at highest rows
  have foreign : ¬ (writer.events.any
      fun event => event.owner ≠ (writer.instanceId, writer.tenantId)) = true := by
    simpa [OwnBatch] using ahead.owned
  have unique : ¬ world.store.violatesUnique writer.instanceId writer.events = true := by
    simp [EventStore.violatesUnique, rows, placed.numbered, List.range'_append_1,
      List.nodup_range']
  have accepted : world.store.transact writer.instanceId writer.tenantId writer.events
      writer.expectedVersion none writer.nextWakeupAt = .ok derived := by
    unfold EventStore.transact
    rw [if_neg foreign]
    change (if world.store.maxSequence _ ≠ _ then _ else _) = _
    rw [if_neg (not_not_intro highest), if_neg unique]
    change (withBatch world.store writer.toAppend).project _ _ >>= _ = _
    rw [projected]
    exact isDerived
  obtain ⟨last, isLast⟩ := List.getLast?_isSome.mpr placed.some |> Option.isSome_iff_exists.mp
  refine ⟨derived, (last.sequence, writer.events), pending,
    EventStore.events_of_refreshDerived isDerived, ?_⟩
  rw [EventStore.commit, accepted]
  simp only [isLast]

/-! ## Steps -/

variable (racing : Racing instanceId base world all)

include racing

omit placed

/-- The step of one call, which leaves the tables alone while another has inserted
its batch. -/
theorem Racing.change (own : Placed instanceId next i after)
    (others : ∀ j ≠ i, next.pending j = world.pending j)
    (grows : (world.store.rowsOf instanceId).length ≤ (next.store.rowsOf instanceId).length)
    (stays : ∀ j other, j ≠ i → all j = some other → ¬ Waits other.stage →
      next.store = world.store ∧ Waits after.stage)
    (sound : next.store.Sound) (serial : Serial base next.commits next.store) :
    Racing instanceId base next (Function.update all i (some after)) := by
  constructor
  case placed =>
    apply Pool.forall_notes_update own
    intro j other different found
    have placed := racing.placed j other found
    refine { placed with knows := ?_ }
    by_cases waits : Waits other.stage
    · have knows := placed.knows
      generalize other.stage = stage at knows waits ⊢
      cases stage with
      | begun => trivial
      | checked => exact knows.trans (placed.ofInstance ▸ grows)
      | _ => cases waits
    · rw [others j different, (stays j other different found waits).1]
      exact placed.knows
  case sole =>
    obtain ⟨leader, sole⟩ := racing.sole
    by_cases waits : Waits after.stage
    · exact ⟨leader, Pool.forall_notes_update (absurd waits) fun j other _ => sole j other⟩
    · refine ⟨i, Pool.forall_notes_update (fun _ => rfl) ?_⟩
      intro j other different found leads
      exact absurd (stays j other different found leads).2 waits
  case sound => exact sound
  case serial => exact serial

variable (found : all i = some writer)

include found

/-- A step that commits nothing. -/
theorem Racing.write (pending : EventStore) (stage : AppendStage)
    (knows : Knows world.store pending writer.toAppend stage)
    (alone : ∀ j other, j ≠ i → all j = some other → ¬ Waits other.stage → Waits stage) :
    Racing instanceId base (world.write i pending)
      (Function.update all i (some { writer with stage := stage })) := by
  refine racing.change ?_ (fun _ different => Function.update_of_ne different _ _) le_rfl
    (fun j other different isOther leads => ⟨rfl, alone j other different isOther leads⟩)
    racing.sound racing.serial
  refine { racing.placed i writer found with knows := ?_ }
  simpa [AppendWorld.write] using knows

/-- While a call has inserted its batch no other has. -/
theorem Racing.alone (leads : ¬ Waits writer.stage) {goal : Prop} (j : Nat) (other : Writer)
    (different : j ≠ i) (isOther : all j = some other) (also : ¬ Waits other.stage) : goal := by
  obtain ⟨leader, sole⟩ := racing.sole
  exact absurd ((sole j other isOther also).trans (sole i writer found leads).symm) different

/-- An insertion finds the log at the version that the call has read, and no
other batch. -/
theorem Racing.insert (checked : writer.stage = .checked) (owned : OwnBatch writer.toAppend)
    (free : ∀ event ∈ writer.events, world.Free writer event) :
    Racing instanceId base (world.write i { events := writer.events })
      (Function.update all i (some { writer with stage := .inserted })) := by
  have placed := racing.placed i writer found
  obtain ⟨event, member, isFirst⟩ := placed.first
  obtain ⟨unused, alone⟩ := free event member
  have current : (world.store.rowsOf writer.instanceId).length = writer.expectedVersion := by
    have knows := placed.knows
    rw [checked] at knows
    rw [(racing.sound.maxSequence _).2, List.mem_range'_1, isFirst] at unused
    unfold Knows at knows
    omega
  refine racing.write found _ .inserted ⟨owned, rfl, current⟩ ?_
  intro j other different isOther leads
  have otherPlaced := racing.placed j other isOther
  obtain ⟨row, listed, isNext⟩ := otherPlaced.first
  have ahead := otherPlaced.ahead leads
  refine absurd ?_ (alone j (placed.txn.symm ▸ different))
  rw [isFirst, ← current, placed.ofInstance, ← otherPlaced.ofInstance, ahead.current, ← isNext,
    ahead.inserted]
  exact List.mem_map_of_mem listed

theorem Racing.commit (refreshed : writer.stage = .refreshed) :
    Racing instanceId base (world.commit writer)
      (Function.update all i (some { writer with stage := .begun })) := by
  have placed := racing.placed i writer found
  obtain ⟨derived, _, pending, events, committed⟩ := placed.transact racing.sound refreshed
  obtain rfl := placed.txn
  have store : (world.commit writer).store = derived := by
    unfold AppendWorld.commit AppendWorld.seenBy
    rw [pending, ← events]
  apply racing.change
  case own => exact { placed with knows := trivial }
  case others => exact fun _ different => Function.update_of_ne different _ _
  case grows =>
    rw [store, EventStore.rowsOf, EventStore.rowsOf, events, List.filter_append]
    simp
  case stays => exact racing.alone found (refreshed ▸ id)
  case sound =>
    have sound := @EventStore.Sound.commit _ writer.instanceId writer.tenantId _ _ racing.sound
      placed.numbered none writer.nextWakeupAt
    rwa [committed, ← store] at sound
  case serial => exact store ▸ racing.serial.commit committed

theorem Racing.performed {op : AppendOp} {response : op.Result} (writes : WritesWhen writer op)
    (answered : world.answers writer op response next) :
    Racing instanceId base next (Function.update all i (some (writer.track op response))) := by
  have placed := racing.placed i writer found
  obtain rfl := placed.txn
  have stays := racing.write found (world.pending writer.txn)
  rw [AppendWorld.write, Function.update_eq_self] at stays
  have ended : Racing instanceId base (world.write writer.txn {})
      (Function.update all writer.txn (some { writer with stage := .begun })) :=
    racing.write found {} .begun trivial fun _ _ _ _ _ => trivial
  have knows := placed.knows
  cases op with
  | guard =>
    rcases response with failure | _ <;> cases answered
    · exact ended
    · exact stays _ knows fun _ _ _ _ _ => writes ▸ trivial
  | maxSequence =>
    obtain ⟨rfl, rfl⟩ := answered
    rw [(racing.sound.maxSequence _).1]
    by_cases current : (next.store.rowsOf writer.instanceId).length = writer.expectedVersion
    · rw [Writer.track, if_pos current]
      exact stays .checked current.ge fun _ _ _ _ _ => trivial
    · rw [Writer.track, if_neg current]
      exact stays .begun trivial fun _ _ _ _ _ => trivial
  | insert events =>
    obtain ⟨checked, rfl, owned⟩ := writes
    rcases response with failure | _ | _
    · exact answered ▸ ended
    · exact answered ▸ ended
    · obtain ⟨free, rfl⟩ := answered
      exact racing.insert found checked owned free
  | project =>
    rcases response with failure | inst
    · exact answered ▸ ended
    · obtain ⟨projected, rfl⟩ := answered
      rw [writes] at knows
      exact stays (.projected inst) ⟨knows, knows.seenBy ▸ projected⟩
        (racing.alone found (writes ▸ id))
  | refreshDerived inst =>
    rcases response with failure | _
    · exact answered ▸ ended
    · obtain ⟨derived, isDerived, rfl⟩ := answered
      rw [writes] at knows
      obtain ⟨ahead, projected⟩ := knows
      rw [ahead.seenBy] at isDerived
      exact racing.write found _ .refreshed
        ⟨⟨ahead.owned, rfl, ahead.current⟩, inst, derived, projected, isDerived, rfl⟩
        (racing.alone found (writes ▸ id))
  | commit =>
    rcases response with failure | _ <;> cases answered
    · exact ended
    · exact racing.commit found writes
  | rollback => exact answered ▸ ended

end Steps

theorem kept_racing (instanceId : String) (base : EventStore) :
    Pool.Kept (appending instanceId) (fun _ _ _ => True) WritesWhen (fun _ _ => True)
      (fun _ _ => True) (Racing instanceId base) := by
  constructor
  case safe =>
    rintro i _ _ ⟨call, _, _, _, rfl, rfl⟩
    exact safe_commitAppend i call
  case spawned =>
    rintro world all i _ _ racing _ ⟨call, ofInstance, some, numbered, rfl, rfl⟩
    refine racing.change ?_ (fun _ _ => rfl) le_rfl (fun _ _ _ _ _ => ⟨rfl, trivial⟩) racing.sound
      racing.serial
    exact { txn := rfl, ofInstance, some, numbered, knows := trivial }
  case performed =>
    intro world all i writer op response next racing found writes answered
    exact ⟨trivial, racing.performed found writes answered⟩

/-- However the statements of concurrent appends to a log interleave, the tables are
those that the transactions that committed leave behind when each runs as a whole,
in the order of the commits. -/
theorem appends_serialize {instanceId : String} {base : EventStore} (sound : base.Sound)
    {pool : Pool AppendWorld Writer AppendOp AppendOp.Result StoreError (Nat × List Event)}
    (run : Pool.Run (appending instanceId) { world := { store := base } } pool) :
    Serial base pool.world.commits pool.world.store ∧ pool.world.store.Sound := by
  have start : Racing instanceId base { store := base } fun _ => none :=
    ⟨fun _ _ found => (by cases found), ⟨0, fun _ _ found => (by cases found)⟩, sound, .nil⟩
  have kept := (Pool.sound_of_empty _ start).run (kept_racing instanceId base) run
  exact ⟨kept.holds.serial, kept.holds.sound⟩

/-- The first event of an instance. -/
def firstAppend : Append where
  instanceId := "i"
  tenantId := "t"
  events := [EventStore.genesisOfSingleStep]
  expectedVersion := 0

/-- Two calls read the same version.  One commits, and the insertion of the other, which
has waited for it, finds its number taken. -/
theorem appends_serialize_race : ∃ pool,
    Pool.Run (appending "i") { world := {} } pool ∧ pool.world.commits = [firstAppend] ∧
      (∃ writer, pool.threads 1 =
        some ⟨writer, .raise (.conflict "instance i: concurrent append at v0")⟩) ∧
      Serial {} pool.world.commits pool.world.store ∧ pool.world.store.Sound := by
  have admitted (i : Nat) : (appending "i").admits i { toAppend := firstAppend, txn := i }
      firstAppend.commit :=
    ⟨firstAppend, rfl, List.cons_ne_nil _ _, rfl, rfl, rfl⟩
  have free : ∀ event ∈ firstAppend.events,
      AppendWorld.Free {} { toAppend := firstAppend, txn := 0 } event :=
    fun _ _ => ⟨List.not_mem_nil, fun _ _ => List.not_mem_nil⟩
  obtain ⟨pool, run, commits, refused⟩ : ∃ pool, Pool.Run (appending "i") { world := {} } pool ∧
      pool.world.commits = [firstAppend] ∧ ∃ writer, pool.threads 1 =
        some ⟨writer, .raise (.conflict "instance i: concurrent append at v0")⟩ :=
    ⟨_, .head (@Pool.Step.spawn _ _ _ _ _ _ _ _ 0 ⟨_, _⟩ rfl (admitted 0)) <|
      .head (@Pool.Step.spawn _ _ _ _ _ _ _ _ 1 ⟨_, _⟩ rfl (admitted 1)) <|
      Pool.run_perform 0 .guard (.ok ()) (by rfl) (by rfl) <|
      Pool.run_perform 1 .guard (.ok ()) (by rfl) (by rfl) <|
      Pool.run_perform 0 .maxSequence 0 (by rfl) (by exact ⟨rfl, rfl⟩) <|
      Pool.run_perform 1 .maxSequence 0 (by rfl) (by exact ⟨rfl, rfl⟩) <|
      Pool.run_perform 0 (.insert _) (.ok true) (by rfl) (by exact ⟨free, rfl⟩) <|
      Pool.run_perform 0 .project (.ok _) (by rfl) (by exact ⟨rfl, rfl⟩) <|
      Pool.run_perform 0 (.refreshDerived _) (.ok ()) (by rfl) (by exact ⟨_, rfl, rfl⟩) <|
      Pool.run_perform 0 .commit (.ok ()) (by rfl) (by rfl) <|
      Pool.run_perform 1 (.insert _) (.ok false) (by rfl) (by rfl) .refl, by rfl, _, by rfl⟩
  exact ⟨pool, run, commits, refused, appends_serialize (fun _ => .inl ⟨rfl, rfl⟩) run⟩

end AgentForge.Guarantees
