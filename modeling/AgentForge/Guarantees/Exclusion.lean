import AgentForge.Leasing.Claiming

/-!
# Exclusive leases

A claim tests the lease row of its snapshot and locks the index row, so the lease
row may have been replaced by another claim in between; the upsert does not test
it again.  As long as no claim locks a row whose lease has changed since its
snapshot, no live lease is replaced and at most one worker holds a lease that has
not expired.
-/

namespace AgentForge.Guarantees

open Domain Leasing Library Store

/-- The lease row of the instance to be locked is the one of the snapshot; rows that
are locked by others are skipped. -/
def Unchanged (txn : Nat) (world : ClaimWorld) : ClaimOp → Prop
  | .lock instanceId => world.locks instanceId = none →
      world.leases.get? instanceId = (world.snapshots txn).get? instanceId
  | _ => True

/-- Claims that lock no row whose lease has changed since their snapshots. -/
def orderlyClaiming (ttl : Time) :
    Pool.Rules ClaimWorld ClaimNotes ClaimOp ClaimOp.Result Engine.Exn (List FencedLease) :=
  { claiming ttl with
    answers := fun notes world op response next =>
      world.answers notes.txn ttl op response next ∧ Unchanged notes.txn world op }

/-! ## What a claim does -/

/-- When a claim performs its operations. -/
def ClaimsWhen (notes : ClaimNotes) : ClaimOp → Prop
  | .now => notes.found = []
  | .select now => notes.now = some now ∧ notes.held = []
  | .lock instanceId => instanceId ∈ notes.found
  | .upsert workerId now row =>
      workerId = notes.workerId ∧ notes.now = some now ∧ row.instanceId ∈ notes.held
  | .commit => True

section Claims

variable {ttl : Time} {notes : ClaimNotes}

/-- Any answer may come. -/
private abbrev unaided (ttl : Time) : Semantics ClaimNotes ClaimOp ClaimOp.Result :=
  Pool.alone (orderlyClaiming ttl) fun _ _ _ => True

/-- Only the rows held have changed. -/
private structure Locking (before after : ClaimNotes) : Prop where
  workerId : after.workerId = before.workerId
  now : after.now = before.now
  found : after.found = before.found
  held : ∀ instanceId ∈ before.held, instanceId ∈ after.held

private theorem safe_lockRows {found : List IndexRow} (limit : Nat)
    (listed : ∀ row ∈ found, row.instanceId ∈ notes.found) : Program.Safe (unaided ttl) ClaimsWhen
      (fun rows after => Locking notes after ∧ ∀ row ∈ rows, row.instanceId ∈ after.held)
      (fun _ _ => True) (lockRows limit found) notes := by
  induction found generalizing limit notes with
  | nil =>
    cases limit <;>
      exact ⟨⟨rfl, rfl, rfl, fun _ held => held⟩, List.forall_mem_nil _⟩
  | cons row rest ih =>
    cases limit with
    | zero =>
      exact ⟨⟨rfl, rfl, rfl, fun _ held => held⟩,
        List.forall_mem_nil _⟩
    | succ limit =>
      have listedRest : ∀ row ∈ rest, row.instanceId ∈ notes.found :=
        fun other member => listed other (List.mem_cons_of_mem _ member)
      refine Program.safe_call_bind.mpr ⟨listed row List.mem_cons_self, ?_⟩
      rintro (_ | _) _ ⟨_, rfl⟩
      · exact ih (limit + 1) listedRest
      · refine Program.Safe.bind (ih limit listedRest) ?_
        rintro rows after ⟨locking, held⟩
        have kept := locking.held row.instanceId List.mem_cons_self
        refine ⟨⟨locking.workerId, locking.now, locking.found, fun _ isHeld =>
          locking.held _ (List.mem_cons_of_mem _ isHeld)⟩, ?_⟩
        intro other member
        rcases List.mem_cons.mp member with rfl | later
        · exact kept
        · exact held other later

private theorem safe_upserts {rows : List IndexRow} {now : Time} (looked : notes.now = some now)
    (held : ∀ row ∈ rows, row.instanceId ∈ notes.held) :
    Program.Safe (unaided ttl) ClaimsWhen (fun _ _ => True) (fun _ _ => True)
      (Program.traverse (upsertRow ttl notes.workerId now) rows) notes := by
  induction rows with
  | nil => trivial
  | cons row rest ih =>
    refine Program.safe_call_bind.mpr ⟨⟨rfl, looked, held row List.mem_cons_self⟩, ?_⟩
    rintro fence after ⟨_, same⟩
    cases same
    exact Program.Safe.bind (ih fun other member => held other (List.mem_cons_of_mem _ member))
      fun _ _ _ => trivial

theorem safe_claim (workerId : String) (limit : Int) (txn : Nat) :
    Program.Safe (Pool.alone (orderlyClaiming ttl) fun _ _ _ => True) ClaimsWhen
      (fun _ _ => True) (fun _ _ => True) (claim ttl workerId limit)
      { txn := txn, workerId := workerId } := by
  refine ⟨rfl, ?_⟩
  rintro now _ ⟨_, rfl⟩
  change Program.Safe _ _ _ _ (acquireRunnable ttl workerId limit now) _
  unfold acquireRunnable
  split
  · trivial
  · refine Program.safe_call_bind.mpr ⟨⟨rfl, rfl⟩, ?_⟩
    rintro found _ ⟨_, rfl⟩
    refine Program.Safe.bind (safe_lockRows _ fun row member => List.mem_map_of_mem member) ?_
    rintro rows after ⟨locking, held⟩
    have sameWorker : after.workerId = workerId := locking.workerId
    rw [← sameWorker]
    refine Program.Safe.bind (safe_upserts locking.now held) fun _ _ _ => ?_
    exact ⟨trivial, fun _ _ _ => trivial⟩

end Claims

/-! ## Claims side by side -/

/-- The lease row next to every instance that was found had expired. -/
def Found (world : ClaimWorld) (notes : ClaimNotes) : Prop :=
  ∀ instanceId ∈ notes.found, ∃ now, notes.now = some now ∧
    ∀ old, (world.snapshots notes.txn).get? instanceId = some old → old.expiresAt < now

/-- A row that a transaction has written, on an instance it has locked. -/
structure Draft (ttl : Time) (world : ClaimWorld) (notes : ClaimNotes)
    (entry : String × LeaseRow) : Prop where
  locked : world.locks entry.1 = some notes.txn
  now : notes.now = some entry.2.acquiredAt
  workerId : entry.2.workerId = notes.workerId
  expiresAt : entry.2.expiresAt = entry.2.acquiredAt + ttl

/-- The grant has expired or is the current lease row. -/
def Stands (world : ClaimWorld) (grant : String × LeaseRow) : Prop :=
  grant.2.expiresAt < world.clock ∨ ∃ row, world.leases.get? grant.1 = some row ∧
    row.workerId = grant.2.workerId ∧ row.expiresAt = grant.2.expiresAt

/-- What holds between the claims and the tables. -/
structure Exclusive (ttl : Time) (world : ClaimWorld) (all : Nat → Option ClaimNotes) : Prop where
  txn : ∀ i notes, all i = some notes → notes.txn = i
  past : ∀ i notes, all i = some notes → ∀ now, notes.now = some now → now ≤ world.clock
  held : ∀ i notes, all i = some notes → ∀ instanceId ∈ notes.held,
    world.locks instanceId = some i ∧ instanceId ∈ notes.found
  found : ∀ i notes, all i = some notes → Found world notes
  locks : ∀ instanceId i, world.locks instanceId = some i →
    world.leases.get? instanceId = (world.snapshots i).get? instanceId ∧
      ∃ notes, all i = some notes ∧ instanceId ∈ notes.held
  drafts : ∀ i, ∀ entry ∈ world.written i, ∃ notes, all i = some notes ∧ Draft ttl world notes entry
  grants : ∀ grant ∈ world.grants, Stands world grant
  replaced : ∀ pair ∈ world.replaced, pair.1.expiresAt < pair.2.acquiredAt

section Steps

variable {ttl : Time} {world next : ClaimWorld} {all : Nat → Option ClaimNotes} {i : Nat}
  {notes after : ClaimNotes}

/-- The step of a thread touches only what belongs to it. -/
private structure Apart (i : Nat) (world next : ClaimWorld) : Prop where
  clock : world.clock ≤ next.clock
  snapshots : ∀ j ≠ i, next.snapshots j = world.snapshots j
  written : ∀ j ≠ i, next.written j = world.written j
  locks : ∀ instanceId j, j ≠ i →
    (next.locks instanceId = some j ↔ world.locks instanceId = some j)

/-- The thread knows what belongs to it. -/
private structure Own (ttl : Time) (i : Nat) (world : ClaimWorld) (notes : ClaimNotes) : Prop where
  txn : notes.txn = i
  past : ∀ now, notes.now = some now → now ≤ world.clock
  held : ∀ instanceId ∈ notes.held, world.locks instanceId = some i ∧ instanceId ∈ notes.found
  found : Found world notes
  locks : ∀ instanceId, world.locks instanceId = some i →
    world.leases.get? instanceId = (world.snapshots i).get? instanceId ∧ instanceId ∈ notes.held
  drafts : ∀ entry ∈ world.written i, Draft ttl world notes entry

variable (exclusive : Exclusive ttl world all)

include exclusive

variable (noted : all i = some notes)

include noted

private theorem Exclusive.own : Own ttl i world notes := by
  constructor
  case txn => exact exclusive.txn i notes noted
  case past => exact exclusive.past i notes noted
  case held => exact exclusive.held i notes noted
  case found => exact exclusive.found i notes noted
  case locks =>
    intro instanceId isLocked
    obtain ⟨same, other, isOther, isHeld⟩ := exclusive.locks instanceId i isLocked
    cases noted.symm.trans isOther
    exact ⟨same, isHeld⟩
  case drafts =>
    intro entry member
    obtain ⟨other, isOther, draft⟩ := exclusive.drafts i entry member
    cases noted.symm.trans isOther
    exact draft

omit noted in
/-- Each thread knows its own after a step, the others as before. -/
private theorem Exclusive.change (apart : Apart i world next) (own : Own ttl i next after)
    (leases : ∀ instanceId j, j ≠ i → world.locks instanceId = some j → next.leases.get? instanceId
      = world.leases.get? instanceId) (grants : ∀ grant ∈ next.grants, Stands next grant)
    (replaced : ∀ pair ∈ next.replaced, pair.1.expiresAt < pair.2.acquiredAt) :
    Exclusive ttl next (Function.update all i (some after)) := by
  constructor
  case txn => exact Pool.forall_notes_update own.txn fun j other _ => exclusive.txn j other
  case past =>
    refine Pool.forall_notes_update own.past fun j other _ isOther now looked => ?_
    exact le_trans (exclusive.past j other isOther now looked) apart.clock
  case held =>
    refine Pool.forall_notes_update own.held fun j other different isOther instanceId isHeld => ?_
    obtain ⟨isLocked, isFound⟩ := exclusive.held j other isOther instanceId isHeld
    exact ⟨(apart.locks instanceId j different).mpr isLocked, isFound⟩
  case found =>
    refine Pool.forall_notes_update own.found fun j other different isOther instanceId isFound => ?_
    obtain ⟨now, looked, expired⟩ := exclusive.found j other isOther instanceId isFound
    rw [exclusive.txn j other isOther] at expired ⊢
    exact ⟨now, looked, apart.snapshots j different ▸ expired⟩
  case locks =>
    intro instanceId j isLocked
    by_cases same : j = i
    · subst same
      obtain ⟨unchanged, isHeld⟩ := own.locks instanceId isLocked
      exact ⟨unchanged, after, Function.update_self .., isHeld⟩
    · have wasLocked := (apart.locks instanceId j same).mp isLocked
      rw [leases instanceId j same wasLocked, apart.snapshots j same, Function.update_of_ne same]
      exact exclusive.locks instanceId j wasLocked
  case drafts =>
    intro j entry member
    by_cases same : j = i
    · subst same
      exact ⟨after, Function.update_self .., own.drafts entry member⟩
    · rw [apart.written j same] at member
      rw [Function.update_of_ne same]
      obtain ⟨other, isOther, draft⟩ := exclusive.drafts j entry member
      have isTxn := exclusive.txn j other isOther
      refine ⟨other, isOther, { draft with locked := ?_ }⟩
      rw [isTxn]
      exact (apart.locks entry.1 j same).mpr (isTxn ▸ draft.locked)
  case grants => exact grants
  case replaced => exact replaced

omit noted in
/-- A step that commits nothing. -/
private theorem Exclusive.quiet (apart : Apart i world next) (own : Own ttl i next after)
    (leases : next.leases = world.leases) (grants : next.grants = world.grants)
    (replaced : next.replaced = world.replaced) :
    Exclusive ttl next (Function.update all i (some after)) := by
  apply exclusive.change apart own
  · intro _ _ _ _
    rw [leases]
  · rw [grants]
    intro grant member
    rcases exclusive.grants grant member with expired | current
    · exact .inl (lt_of_lt_of_le expired apart.clock)
    · exact .inr (leases.symm ▸ current)
  · rw [replaced]
    exact exclusive.replaced

omit noted in
omit exclusive in
private theorem Apart.refl (i : Nat) (world : ClaimWorld) : Apart i world world :=
  ⟨le_refl _, fun _ _ => rfl, fun _ _ => rfl, fun _ _ _ => Iff.rfl⟩

omit noted in
theorem Exclusive.spawn (absent : all i = none) (workerId : String) :
    Exclusive ttl world (Function.update all i (some { txn := i, workerId := workerId })) := by
  refine exclusive.quiet (.refl i world) ?_ rfl rfl rfl
  constructor
  case txn => rfl
  case past => rintro now ⟨⟩
  case held => exact List.forall_mem_nil _
  case found => exact List.forall_mem_nil _
  case locks =>
    intro instanceId isLocked
    obtain ⟨_, other, isOther, _⟩ := exclusive.locks instanceId i isLocked
    cases absent.symm.trans isOther
  case drafts =>
    intro entry member
    obtain ⟨other, isOther, _⟩ := exclusive.drafts i entry member
    cases absent.symm.trans isOther

/-! ## The operations of a claim -/

omit noted in
omit exclusive in
/-- Without rows held, nothing is locked or written. -/
private theorem Own.unlocked (own : Own ttl i world notes) (nothing : notes.held = []) :
    (∀ instanceId, world.locks instanceId ≠ some i) ∧ world.written i = [] := by
  have free (instanceId : String) : world.locks instanceId ≠ some i := by
    intro isLocked
    have isHeld := (own.locks instanceId isLocked).2
    rw [nothing] at isHeld
    cases isHeld
  refine ⟨free, List.eq_nil_iff_forall_not_mem.mpr fun entry member => ?_⟩
  exact free entry.1 (own.txn ▸ (own.drafts entry member).locked)

private theorem Exclusive.now {now : Time} (nothing : notes.found = [])
    (passed : world.clock ≤ now) :
    Exclusive ttl { world with clock := now }
      (Function.update all i (some { notes with now := some now })) := by
  have own := exclusive.own noted
  have nothingHeld : notes.held = [] := by
    refine List.eq_nil_iff_forall_not_mem.mpr fun instanceId isHeld => ?_
    have isFound := (own.held instanceId isHeld).2
    rw [nothing] at isFound
    cases isFound
  obtain ⟨free, unwritten⟩ := own.unlocked nothingHeld
  refine exclusive.quiet ⟨passed, fun _ _ => rfl, fun _ _ => rfl, fun _ _ _ => Iff.rfl⟩ ?_ rfl rfl
    rfl
  constructor
  case txn => exact own.txn
  case past =>
    rintro _ ⟨⟩
    exact le_refl _
  case held => exact own.held
  case found =>
    intro instanceId isFound
    rw [nothing] at isFound
    cases isFound
  case locks => exact fun instanceId isLocked => absurd isLocked (free instanceId)
  case drafts =>
    rw [unwritten]
    exact List.forall_mem_nil _

private theorem Exclusive.select {now : Time} {found : List IndexRow}
    (looked : notes.now = some now) (nothing : notes.held = [])
    (meets : ∀ row ∈ found, world.claims now row = true) :
    Exclusive ttl { world with snapshots := Function.update world.snapshots i world.leases }
      (Function.update all i (some { notes with found := found.map IndexRow.instanceId })) := by
  have own := exclusive.own noted
  obtain ⟨free, unwritten⟩ := own.unlocked nothing
  refine exclusive.quiet ⟨le_refl _, fun j different => Function.update_of_ne different _ _,
    fun _ _ => rfl, fun _ _ _ => Iff.rfl⟩ ?_ rfl rfl rfl
  constructor
  case txn => exact own.txn
  case past => exact own.past
  case held =>
    intro instanceId isHeld
    rw [nothing] at isHeld
    cases isHeld
  case found =>
    intro instanceId isFound
    obtain ⟨row, member, rfl⟩ := List.mem_map.mp isFound
    refine ⟨now, looked, fun old stored => ?_⟩
    simp only [own.txn, Function.update_self] at stored
    have claimed := meets row member
    simp only [ClaimWorld.claims, claimable, stored, Option.all_some, Bool.and_eq_true,
      decide_eq_true_eq] at claimed
    exact claimed.2
  case locks => exact fun instanceId isLocked => absurd isLocked (free instanceId)
  case drafts =>
    rw [unwritten]
    exact List.forall_mem_nil _

private theorem Exclusive.lock {instanceId : String} (isFound : instanceId ∈ notes.found)
    (isFree : world.locks instanceId = none)
    (same : world.leases.get? instanceId = (world.snapshots i).get? instanceId) :
    Exclusive ttl (world.locked i instanceId)
      (Function.update all i (some { notes with held := instanceId :: notes.held })) := by
  have own := exclusive.own noted
  have others {other : String} {j : Nat} (wasLocked : world.locks other = some j) :
      (world.locked i instanceId).locks other = some j := by
    have different : other ≠ instanceId := by
      rintro rfl
      cases isFree.symm.trans wasLocked
    exact (Function.update_of_ne different _ _).trans wasLocked
  refine exclusive.quiet ⟨le_refl _, fun _ _ => rfl, fun _ _ => rfl, ?_⟩ ?_ rfl rfl rfl
  · refine fun other j different => ⟨fun isLocked => ?_, others⟩
    by_cases equal : other = instanceId
    · subst equal
      simp only [ClaimWorld.locked, Function.update_self, Option.some.injEq] at isLocked
      exact absurd isLocked.symm different
    · exact (Function.update_of_ne equal _ _).symm.trans isLocked
  · constructor
    case txn => exact own.txn
    case past => exact own.past
    case held =>
      intro other isHeld
      rcases List.mem_cons.mp isHeld with rfl | old
      · exact ⟨Function.update_self .., isFound⟩
      · exact ⟨others (own.held other old).1, (own.held other old).2⟩
    case found => exact own.found
    case locks =>
      intro other isLocked
      by_cases equal : other = instanceId
      · subst equal
        exact ⟨same, List.mem_cons_self⟩
      · have wasLocked := (Function.update_of_ne equal _ _).symm.trans isLocked
        exact ⟨(own.locks other wasLocked).1, List.mem_cons_of_mem _ (own.locks other wasLocked).2⟩
    case drafts =>
      intro entry member
      have draft := own.drafts entry member
      exact { draft with locked := others draft.locked }

private theorem Exclusive.upsert {now : Time} {row : IndexRow} (looked : notes.now = some now)
    (isHeld : row.instanceId ∈ notes.held) : Exclusive ttl
      (world.wrote i (row.instanceId, world.upserted ttl notes.workerId now row))
      (Function.update all i (some notes)) := by
  have own := exclusive.own noted
  refine exclusive.quiet ⟨le_refl _, fun _ _ => rfl,
    fun j different => Function.update_of_ne different _ _, fun _ _ _ => Iff.rfl⟩ ?_ rfl rfl rfl
  refine { own with drafts := ?_ }
  intro entry member
  simp only [ClaimWorld.wrote, Function.update_self] at member
  rcases List.mem_append.mp member with old | new
  · exact { own.drafts entry old with }
  · rw [List.mem_singleton.mp new]
    exact ⟨own.txn ▸ (own.held row.instanceId isHeld).1, looked, rfl, rfl⟩

omit noted in
omit exclusive in
/-- The lease row that a written row replaces has expired. -/
private theorem Own.expired (own : Own ttl i world notes) {entry : String × LeaseRow}
    (member : entry ∈ world.written i) {old : LeaseRow}
    (stored : world.leases.get? entry.1 = some old) : old.expiresAt < entry.2.acquiredAt := by
  have draft := own.drafts entry member
  have isLocked : world.locks entry.1 = some i := own.txn ▸ draft.locked
  obtain ⟨same, isHeld⟩ := own.locks entry.1 isLocked
  obtain ⟨now, looked, expired⟩ := own.found entry.1 (own.held entry.1 isHeld).2
  cases draft.now.symm.trans looked
  rw [same] at stored
  exact expired old (own.txn.symm ▸ stored)

private theorem Exclusive.commit : Exclusive ttl (world.committed i)
      (Function.update all i (some { notes with held := [] })) := by
  have own := exclusive.own noted
  have lockedHere {instanceId : String} (listed : instanceId ∈ (world.written i).map Prod.fst) :
      world.locks instanceId = some i := by
    obtain ⟨entry, member, rfl⟩ := List.mem_map.mp listed
    exact own.txn ▸ (own.drafts entry member).locked
  have released (instanceId : String) (j : Nat) (different : j ≠ i) :
      (world.committed i).locks instanceId = some j ↔ world.locks instanceId = some j := by
    unfold ClaimWorld.committed
    by_cases ours : world.locks instanceId = some i
    · simp [ours, different.symm]
    · simp [ours]
  refine exclusive.change ⟨le_refl _, fun _ _ => rfl,
    fun j different => Function.update_of_ne different _ _, released⟩ ?_ ?_ ?_ ?_
  · constructor
    case txn => exact own.txn
    case past => exact own.past
    case held => exact List.forall_mem_nil _
    case found => exact own.found
    case locks =>
      intro instanceId isLocked
      unfold ClaimWorld.committed at isLocked
      by_cases ours : world.locks instanceId = some i <;> simp [ours] at isLocked
    case drafts =>
      intro entry member
      simp only [ClaimWorld.committed, Function.update_self] at member
      cases member
  · intro instanceId j different isLocked
    refine Dict.get?_update_of_not_mem fun listed => different ?_
    exact Option.some.inj (isLocked.symm.trans (lockedHere listed))
  · intro grant member
    rcases List.mem_append.mp member with old | new
    · by_cases listed : grant.1 ∈ (world.written i).map Prod.fst
      · -- The grant was replaced: it had expired.
        obtain ⟨entry, written, same⟩ := List.mem_map.mp listed
        rcases exclusive.grants grant old with expired | ⟨row, stored, _, expiry⟩
        · exact .inl expired
        · have past := own.past _ (own.drafts entry written).now
          have expired := own.expired written (same.symm ▸ stored)
          exact .inl (expiry ▸ lt_of_lt_of_le expired past)
      · have unchanged : (world.committed i).leases.get? grant.1 = world.leases.get? grant.1 :=
          Dict.get?_update_of_not_mem listed
        unfold Stands
        rw [unchanged]
        exact exclusive.grants grant old
    · obtain ⟨row, stored, written⟩ :=
        @Dict.exists_get?_update _ _ _ world.leases _ _ (List.mem_map_of_mem (f := Prod.fst) new)
      have granted := own.drafts grant new
      have current := own.drafts _ written
      have sameTime : row.acquiredAt = grant.2.acquiredAt :=
        Option.some.inj (current.now.symm.trans granted.now)
      refine .inr ⟨row, stored, current.workerId.trans granted.workerId.symm, ?_⟩
      rw [granted.expiresAt, ← sameTime]
      exact current.expiresAt
  · intro pair member
    rcases List.mem_append.mp member with old | new
    · exact exclusive.replaced pair old
    · obtain ⟨entry, written, found⟩ := List.mem_filterMap.mp new
      obtain ⟨old, stored, rfl⟩ := Option.map_eq_some_iff.mp found
      exact own.expired written stored

/-- Every operation of a claim keeps the exclusion. -/
theorem Exclusive.perform {op : ClaimOp} {response : op.Result} (timely : ClaimsWhen notes op)
    (answered : world.answers notes.txn ttl op response next)
    (unchanged : Unchanged notes.txn world op) :
    Exclusive ttl next (Function.update all i (some (notes.track op response))) := by
  have isTxn := exclusive.txn i notes noted
  rw [isTxn] at answered unchanged
  cases op with
  | now =>
    obtain ⟨passed, rfl⟩ := answered
    exact exclusive.now noted timely passed
  | select now =>
    obtain ⟨_, found, rfl⟩ := answered
    exact exclusive.select noted timely.1 timely.2 fun row member => ((found row).mp member).2
  | lock instanceId =>
    obtain ⟨isFree, rfl⟩ := answered
    cases locked : world.locks instanceId with
    | none =>
      rw [locked] at isFree
      cases isFree
      exact exclusive.lock noted timely locked (unchanged locked)
    | some txn =>
      rw [locked] at isFree
      cases isFree
      have same : Function.update all i (some notes) = all := by
        rw [← noted]
        exact Function.update_eq_self i all
      change Exclusive ttl world (Function.update all i (some notes))
      rwa [same]
  | upsert workerId now row =>
    obtain ⟨rfl, looked, isHeld⟩ := timely
    obtain ⟨_, rfl⟩ := answered
    exact exclusive.upsert noted looked isHeld
  | commit =>
    cases answered
    exact exclusive.commit noted

end Steps

theorem kept_orderlyClaiming (ttl : Time) :
    Pool.Kept (orderlyClaiming ttl) (fun _ _ _ => True) ClaimsWhen (fun _ _ => True)
      (fun _ _ => True) (Exclusive ttl) := by
  constructor
  case safe =>
    rintro i _ _ ⟨workerId, limit, rfl, rfl⟩
    exact safe_claim workerId limit i
  case spawned =>
    rintro world all i _ _ exclusive absent ⟨workerId, limit, rfl, rfl⟩
    exact exclusive.spawn absent workerId
  case performed =>
    rintro world all i notes op response next exclusive noted timely ⟨answered, unchanged⟩
    exact ⟨trivial, exclusive.perform noted timely answered unchanged⟩

/-- If no claim locks a row whose lease has changed since its snapshot, no claim
replaces a live lease of another worker, and at any time at most one worker has
been granted a lease of an instance that has not expired. -/
theorem live_leases_exclusive (ttl clock : Time) (index : Dict String IndexRow) (leases : Leases)
    (pool : Pool ClaimWorld ClaimNotes ClaimOp ClaimOp.Result Engine.Exn (List FencedLease))
    (run : Pool.Run (orderlyClaiming ttl)
      { world := { clock := clock, index := index, leases := leases } } pool) :
    (∀ pair ∈ pool.world.replaced, pair.1.workerId ≠ pair.2.workerId →
      pair.1.expiresAt < pair.2.acquiredAt) ∧
    ∀ first ∈ pool.world.grants, ∀ second ∈ pool.world.grants, first.1 = second.1 →
      pool.world.clock ≤ first.2.expiresAt → pool.world.clock ≤ second.2.expiresAt →
        first.2.workerId = second.2.workerId := by
  have initially : Exclusive ttl { clock := clock, index := index, leases := leases }
      fun _ => none := by
    constructor
    case txn | past | held | found => rintro i notes ⟨⟩
    case locks => rintro instanceId i ⟨⟩
    case drafts | grants | replaced => exact fun _ => by simp
  have exclusive : Exclusive ttl pool.world pool.notes :=
    ((Pool.sound_of_empty _ initially).run (kept_orderlyClaiming ttl) run).holds
  refine ⟨fun pair member _ => exclusive.replaced pair member, ?_⟩
  intro first isFirst second isSecond sameInstance firstLive secondLive
  rcases exclusive.grants first isFirst with expired | ⟨row, stored, firstWorker, _⟩
  · exact absurd firstLive (not_le.mpr expired)
  · rcases exclusive.grants second isSecond with expired | ⟨other, otherStored, secondWorker, _⟩
    · exact absurd secondLive (not_le.mpr expired)
    · rw [sameInstance] at stored
      cases stored.symm.trans otherStored
      exact firstWorker.symm.trans secondWorker

/-! ## Two workers and one instance -/

/-- An instance that nobody has claimed. -/
def waitingRow : IndexRow where
  instanceId := "instance"
  tenantId := "tenant"
  workflowId := "mail"
  workflowVersion := "1.0.0"
  status := .pending
  lastSequence := 1
  costAccumulatedUsd := 0
  budgetLimitUsd := none
  nextWakeupAt := none
  completedAt := none

def waitingWorld : ClaimWorld where
  clock := 0
  index := Dict.ofList [("instance", waitingRow)]
  leases := Dict.empty

/-- Two workers claim with leases of 30 seconds: `true` lets the first one perform
its next operation, after a pause. -/
def claimsOf (turns : List (Bool × Nat)) :
    List (Pool.Turn ClaimNotes ClaimOp ClaimOp.Result Engine.Exn (List FencedLease) Nat) :=
  [.start 0 { txn := 0, workerId := "first" } (claim 30 "first" 1),
    .start 1 { txn := 1, workerId := "second" } (claim 30 "second" 1)] ++
    turns.map fun turn => .run (if turn.1 then 0 else 1) turn.2

theorem admits_of_mem_claimsOf {turns : List (Bool × Nat)} {i : Nat} {notes : ClaimNotes}
    {code : ClaimCode (List FencedLease)} (member : .start i notes code ∈ claimsOf turns) :
    ∃ workerId limit, notes = { txn := i, workerId := workerId } ∧
      code = claim 30 workerId limit := by
  rcases List.mem_append.mp member with started | running
  · rcases List.mem_cons.mp started with first | second
    · cases first
      exact ⟨_, _, rfl, rfl⟩
    · cases List.mem_singleton.mp second
      exact ⟨_, _, rfl, rfl⟩
  · obtain ⟨turn, _, isRun⟩ := List.mem_map.mp running
    cases isRun

/-- The answers of the world to the transaction of the thread. -/
def claimAnswer (pause : Nat) (notes : ClaimNotes) (world : ClaimWorld) (op : ClaimOp) :
    op.Result × ClaimWorld :=
  world.answer notes.txn 30 pause op

/-- A test for the condition on locks. -/
def unchangedTest (notes : ClaimNotes) (world : ClaimWorld) : ClaimOp → Bool
  | .lock instanceId =>
      world.indexed &&
        world.leases.get? instanceId = (world.snapshots notes.txn).get? instanceId
  | _ => world.indexed

theorem unchanged_of_test {notes : ClaimNotes} {world : ClaimWorld} {op : ClaimOp}
    (passed : unchangedTest notes world op = true) :
    world.indexed = true ∧ Unchanged notes.txn world op := by
  cases op with
  | lock instanceId =>
    simp only [unchangedTest, Bool.and_eq_true, decide_eq_true_eq] at passed
    exact ⟨passed.1, fun _ => passed.2⟩
  | _ => exact ⟨passed, trivial⟩

/-- The second worker claims when the lease of the first one has expired. -/
def laterClaim : Pool ClaimWorld ClaimNotes ClaimOp ClaimOp.Result Engine.Exn (List FencedLease) :=
  Pool.follow (orderlyClaiming 30) unchangedTest claimAnswer
    (claimsOf (List.replicate 5 (true, 0) ++ List.replicate 5 (false, 60)))
    { world := waitingWorld }

theorem live_leases_exclusive_laterClaim :
    laterClaim.world.grants.length = 2 ∧ laterClaim.world.replaced.length = 1 ∧
      ∀ pair ∈ laterClaim.world.replaced, pair.1.workerId ≠ pair.2.workerId →
        pair.1.expiresAt < pair.2.acquiredAt := by
  have answered (pause : Nat) (notes : ClaimNotes) (world : ClaimWorld) (op : ClaimOp)
      (passed : unchangedTest notes world op = true) :
      (orderlyClaiming 30).answers notes world op (claimAnswer pause notes world op).1
        (claimAnswer pause notes world op).2 :=
    ⟨world.answers_answer notes.txn (unchanged_of_test passed).1 30 pause op,
      (unchanged_of_test passed).2⟩
  have run : Pool.Run (orderlyClaiming 30) { world := waitingWorld } laterClaim :=
    Pool.run_follow answered _ (fun _ _ _ => admits_of_mem_claimsOf) _
  exact ⟨by decide +kernel, by decide +kernel, (live_leases_exclusive 30 0 _ _ _ run).1⟩

/-- Both workers take their snapshots before the first one commits. -/
def crossedClaims :
    Pool ClaimWorld ClaimNotes ClaimOp ClaimOp.Result Engine.Exn (List FencedLease) :=
  Pool.follow (claiming 30) (fun _ world _ => world.indexed) claimAnswer
    (claimsOf ([(true, 0), (true, 0), (false, 0), (false, 0)] ++ List.replicate 3 (true, 0) ++
      List.replicate 3 (false, 0))) { world := waitingWorld }

/-- The second worker locks the row when the first one has given it back, and
replaces a lease that has just been granted: both hold one that is live. -/
theorem live_lease_replaced :
    ∃ pool, Pool.Run (claiming 30) { world := waitingWorld } pool ∧
      (∃ pair ∈ pool.world.replaced, pair.1.workerId ≠ pair.2.workerId ∧
        pair.2.acquiredAt ≤ pair.1.expiresAt) ∧
      ∃ first ∈ pool.world.grants, ∃ second ∈ pool.world.grants, first.1 = second.1 ∧
        pool.world.clock ≤ first.2.expiresAt ∧ pool.world.clock ≤ second.2.expiresAt ∧
        first.2.workerId ≠ second.2.workerId := by
  have answered (pause : Nat) (notes : ClaimNotes) (world : ClaimWorld) (op : ClaimOp)
      (passed : world.indexed = true) :
      (claiming 30).answers notes world op (claimAnswer pause notes world op).1
        (claimAnswer pause notes world op).2 :=
    world.answers_answer notes.txn passed 30 pause op
  have run : Pool.Run (claiming 30) { world := waitingWorld } crossedClaims :=
    Pool.run_follow answered _ (fun _ _ _ => admits_of_mem_claimsOf) _
  exact ⟨crossedClaims, run, by decide +kernel, by decide +kernel⟩

end AgentForge.Guarantees
