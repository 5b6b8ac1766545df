import AgentForge.Store.DefinitionRepo

/-!
# The active version of a name

A call of `register` deactivates the versions of a name that its update has found
and inserts an active one.  Nothing keeps another version from being activated in
between, and a version that is already registered is left as it is.  If no
version is activated while the update of another call is under way, and only the
active version is registered again, the last version activated is the only active
one.
-/

namespace AgentForge.Guarantees

open Domain Engine Library Store

/-- When a call with `activate` returns: nobody else has begun an update of the
name, or, if the version was already there, it is the active one. -/
def Unrivalled (call : Registration) (world : DefinitionWorld) : RegisterOp → Prop
  | .commit => call.activate = true →
      if call.stage = .registered then
        ∃ row ∈ world.rows, row.tenantId = call.tenantId ∧ row.definition = call.definition ∧
          row.isActive = true
      else
        ∀ other ∈ world.others call.txn, ∀ update, other.update = some update →
          ¬ (update.tenantId = call.tenantId ∧ update.name = call.definition.name)
  | _ => True

/-- Calls that return only then. -/
def timelyRegistering (checksum : Template → String) :
    Pool.Rules DefinitionWorld Registration RegisterOp RegisterOp.Result Exn Template :=
  { registering checksum with
    answers := fun call world op response next =>
      world.answers call op response next ∧ Unrivalled call world op }

/-! ## What a call does -/

/-- The row that a call inserts. -/
def rowOf (checksum : Template → String) (call : Registration) : DefinitionRow where
  tenantId := call.tenantId
  definition := call.definition
  checksum := checksum call.definition
  isActive := call.activate

/-- When a call performs its statements. -/
def RegistersWhen (checksum : Template → String) (call : Registration) : RegisterOp → Prop
  | .get _ => call.stage = .begun
  | .beginUpdate tenantId name => call.stage = .absent ∧ call.activate = true ∧
      tenantId = call.tenantId ∧ name = call.definition.name
  | .finishUpdate => call.stage = .updating
  | .insert row => call.stage = (if call.activate then .updated else .absent) ∧
      row = rowOf checksum call
  | .commit => call.stage = .registered ∨ call.stage = .inserted
  | .rollback => call.stage = .registered

section Calls

variable {checksum : Template → String} {call : Registration} {definition : Template}

theorem safe_commit (due : call.stage = .registered ∨ call.stage = .inserted) :
    Program.Safe (Pool.alone (timelyRegistering checksum) fun _ _ _ => True)
      (RegistersWhen checksum) (fun _ _ => True) (fun _ _ => True)
      (RegisterCode.commit >>= fun _ => pure definition) call := by
  refine ⟨due, ?_⟩
  rintro (failure | _) _ _ <;> trivial

theorem safe_insert (due : call.stage = if call.activate then .updated else .absent) :
    Program.Safe (Pool.alone (timelyRegistering checksum) fun _ _ _ => True)
      (RegistersWhen checksum) (fun _ _ => True) (fun _ _ => True)
      (RegisterCode.insert (rowOf checksum call) >>= fun _ =>
        RegisterCode.commit >>= fun _ => pure definition) call := by
  refine ⟨⟨due, rfl⟩, ?_⟩
  rintro (failure | _) _ ⟨_, rfl⟩
  · trivial
  · exact safe_commit (.inr rfl)

theorem safe_register (txn : Nat) (tenantId : String) (definition : Template) (activate : Bool) :
    Program.Safe (Pool.alone (timelyRegistering checksum) fun _ _ _ => True)
      (RegistersWhen checksum) (fun _ _ => True) (fun _ _ => True)
      (register checksum tenantId definition activate)
      { txn := txn, tenantId := tenantId, definition := definition, activate := activate } := by
  refine ⟨rfl, ?_⟩
  rintro (_ | existing) _ ⟨_, rfl⟩
  · cases activate with
    | true =>
      refine ⟨⟨rfl, rfl, rfl, rfl⟩, ?_⟩
      rintro _ _ ⟨_, rfl⟩
      refine ⟨rfl, ?_⟩
      rintro (failure | _) _ ⟨_, rfl⟩
      · trivial
      · exact safe_insert rfl
    | false => exact safe_insert rfl
  · change Program.Safe _ _ _ _ (ite _ _ _) _
    split
    · exact ⟨rfl, fun _ _ _ => trivial⟩
    · exact safe_commit (.inl rfl)

end Calls

/-! ## Calls side by side -/

/-- The rows that an update has found include the active ones. -/
def Covers (world : DefinitionWorld) (call : Registration) (found : List RowKey) : Prop :=
  ∀ row ∈ world.active call.tenantId call.definition.name, row.key ∈ found

/-- The update of a call. -/
def updateOf (call : Registration) (found : List RowKey) (written : Bool) : Deactivation where
  tenantId := call.tenantId
  name := call.definition.name
  found := found
  written := written

/-- The transaction of a call is as far as the call. -/
def Fits (checksum : Template → String) (world : DefinitionWorld) (call : Registration) : Prop :=
  match call.stage with
  | .begun | .registered | .absent | .ended => world.transaction call.txn = {}
  | .updating => ∃ found, Covers world call found ∧
      world.transaction call.txn = { update := some (updateOf call found false) }
  | .updated => ∃ found, Covers world call found ∧
      world.transaction call.txn = { update := some (updateOf call found true) }
  | .inserted =>
      if call.activate then ∃ found, Covers world call found ∧ world.transaction call.txn =
        { update := some (updateOf call found true), inserted := some (rowOf checksum call) }
      else world.transaction call.txn = { inserted := some (rowOf checksum call) }

/-- What holds between the calls and the table. -/
structure InForce (checksum : Template → String) (world : DefinitionWorld)
    (all : Nat → Option Registration) : Prop where
  txn : ∀ i call, all i = some call → call.txn = i
  fits : ∀ i call, all i = some call → Fits checksum world call
  idle : ∀ i, all i = none → world.transaction i = {}
  one : ∀ tenantId name, (world.active tenantId name).map DefinitionRow.definition =
    (world.latest tenantId name).toList

section Steps

variable {checksum : Template → String} {world next : DefinitionWorld}
  {all : Nat → Option Registration} {i : Nat} {call after : Registration} {txn other : Nat}

theorem transaction_wrote_self (txn : Nat) (transaction : Transaction) :
    (world.wrote txn transaction).transaction txn = transaction := by
  simp [DefinitionWorld.wrote, DefinitionWorld.transaction]

theorem transaction_wrote_ne (different : other ≠ txn) (transaction : Transaction) :
    (world.wrote txn transaction).transaction other = world.transaction other := by
  simp [DefinitionWorld.wrote, DefinitionWorld.transaction, Dict.get?_set_ne _ different]

/-- A transaction with an update is among the others. -/
theorem mem_others (different : other ≠ txn) {update : Deactivation}
    (updates : (world.transaction other).update = some update) :
    world.transaction other ∈ world.others txn := by
  unfold DefinitionWorld.transaction at updates ⊢
  cases found : world.transactions.get? other with
  | none =>
    rw [found] at updates
    cases updates
  | some transaction =>
    refine List.mem_map.mpr ⟨(other, transaction), List.mem_filter.mpr ⟨?_, ?_⟩, rfl⟩
    · exact Dict.get?_eq_some_iff.mp found
    · simpa using different

/-- What a call has done stays so while its rows are active. -/
theorem Fits.frame (fits : Fits checksum world call)
    (transaction : next.transaction call.txn = world.transaction call.txn)
    (active : ∀ update, (world.transaction call.txn).update = some update →
      ∀ row ∈ next.active update.tenantId update.name,
        row ∈ world.active update.tenantId update.name) : Fits checksum next call := by
  have covers {found : List RowKey} {written : Bool} {inserted : Option DefinitionRow}
      (covers : Covers world call found) (isOwn : world.transaction call.txn =
        { update := some (updateOf call found written), inserted := inserted }) :
      Covers next call found :=
    fun row member => covers row (active (updateOf call found written) (by rw [isOwn]) row member)
  unfold Fits at fits ⊢
  rw [transaction]
  cases stage : call.stage with
  | begun | registered | absent | ended => simpa only [stage] using fits
  | updating | updated =>
    simp only [stage] at fits
    obtain ⟨found, isCovered, isOwn⟩ := fits
    exact ⟨found, covers isCovered isOwn, isOwn⟩
  | inserted =>
    simp only [stage] at fits ⊢
    split at fits
    · next activates =>
      obtain ⟨found, isCovered, isOwn⟩ := fits
      rw [if_pos activates]
      exact ⟨found, covers isCovered isOwn, isOwn⟩
    · next activates =>
      rw [if_neg activates]
      exact fits

variable (current : InForce checksum world all) {transaction : Transaction} {found : List RowKey}

include current

/-- The step of one call. -/
theorem InForce.change (txn : after.txn = i) (own : Fits checksum next after)
    (others : ∀ j ≠ i, next.transaction j = world.transaction j)
    (active : ∀ j ≠ i, ∀ update, (world.transaction j).update = some update → ∀ row ∈ next.active
      update.tenantId update.name, row ∈ world.active update.tenantId update.name)
    (one : ∀ tenantId name, (next.active tenantId name).map DefinitionRow.definition = (next.latest
      tenantId name).toList) : InForce checksum next (Function.update all i (some after)) := by
  constructor
  case txn => exact Pool.forall_notes_update txn fun j other _ => current.txn j other
  case fits =>
    refine Pool.forall_notes_update own fun j other different isOther => ?_
    have isTxn := current.txn j other isOther
    exact (current.fits j other isOther).frame (isTxn ▸ others j different)
      (isTxn ▸ active j different)
  case idle =>
    intro j absent
    by_cases same : j = i
    · rw [same, Function.update_self] at absent
      cases absent
    · rw [Function.update_of_ne same] at absent
      rw [others j same]
      exact current.idle j absent
  case one => exact one

/-- A step that commits nothing. -/
theorem InForce.wrote (txn : after.txn = i)
    (own : Fits checksum (world.wrote i transaction) after) :
    InForce checksum (world.wrote i transaction) (Function.update all i (some after)) :=
  current.change txn own (fun _ different => transaction_wrote_ne different transaction)
    (fun _ _ _ _ _ member => member) current.one

theorem InForce.rollback (txn : call.txn = i) (ended : after = { call with stage := .ended }) :
    InForce checksum (world.rollback call.txn) (Function.update all i (some after)) := by
  subst txn ended
  refine current.wrote rfl ?_
  exact transaction_wrote_self call.txn {}

/-! ## Commits -/

omit current in
theorem named_deactivate (transaction : Transaction) (row : DefinitionRow)
    (tenantId name : String) :
    (transaction.deactivate row).named tenantId name = row.named tenantId name := by
  unfold Transaction.deactivate
  split <;> rfl

omit current in
theorem deactivate_of_none (none : transaction.update = none) (row : DefinitionRow) :
    transaction.deactivate row = row := by
  simp [Transaction.deactivate, none]

omit current in
/-- Rows of other names stay as they are. -/
theorem deactivate_of_not_named {update : Deactivation} (updates : transaction.update = some update)
    {row : DefinitionRow} (other : row.named update.tenantId update.name = false) :
    transaction.deactivate row = row := by
  simp [Transaction.deactivate, updates, Deactivation.writes, other]

omit current in
/-- Without an update the rows stay, and a new one is added. -/
theorem rows_commit_of_none (none : (world.transaction call.txn).update = none) :
    (world.commit call).rows = world.rows ++ (world.transaction call.txn).inserted.toList := by
  have same : (world.transaction call.txn).deactivate = id :=
    funext fun row => deactivate_of_none none row
  simp [DefinitionWorld.commit, same]

omit current in
/-- After the commit of an update no row of the name is active but the new one. -/
theorem active_commit_self (covers : Covers world call found) (activates : call.activate = true)
    (isOwn : world.transaction call.txn =
      { update := some (updateOf call found true), inserted := some (rowOf checksum call) }) :
    (world.commit call).active call.tenantId call.definition.name = [rowOf checksum call] := by
  have gone : (world.rows.map (world.transaction call.txn).deactivate).filter
      (fun row => row.named call.tenantId call.definition.name && row.isActive) = [] := by
    apply List.filter_eq_nil_iff.mpr
    intro row member isActive
    obtain ⟨old, listed, rfl⟩ := List.mem_map.mp member
    rw [named_deactivate, Bool.and_eq_true] at isActive
    obtain ⟨isNamed, isActive⟩ := isActive
    have wasActive : old.isActive = true := by
      unfold Transaction.deactivate at isActive
      split at isActive
      · cases isActive
      · exact isActive
    have isFound : old.key ∈ found :=
      covers old (List.mem_filter.mpr ⟨listed, by rw [isNamed, wasActive]; rfl⟩)
    have written : (updateOf call found true).writes old = true := by
      simp [Deactivation.writes, updateOf, isNamed, isFound]
    simp [Transaction.deactivate, isOwn, written] at isActive
  have new : (rowOf checksum call).named call.tenantId call.definition.name = true := by
    simp [DefinitionRow.named, rowOf]
  have isActive : (rowOf checksum call).isActive = true := activates
  unfold DefinitionWorld.active DefinitionWorld.commit
  rw [List.filter_append, gone, isOwn]
  simp [new, isActive]

omit current in
/-- The active rows of every other name are as before. -/
theorem active_commit_other {tenantId name : String} (isOwn : world.transaction call.txn =
      { update := some (updateOf call found true), inserted := some (rowOf checksum call) })
    (other : ¬ (tenantId = call.tenantId ∧ name = call.definition.name)) :
    (world.commit call).active tenantId name = world.active tenantId name := by
  have apart (row : DefinitionRow) (isNamed : row.named tenantId name = true) :
      row.named call.tenantId call.definition.name = false := by
    simp only [DefinitionRow.named, Bool.and_eq_true, decide_eq_true_eq] at isNamed
    obtain ⟨rfl, rfl⟩ := isNamed
    simpa [DefinitionRow.named] using other
  have new : (rowOf checksum call).named tenantId name = false := by
    by_contra isNamed
    have self := apart _ (Bool.not_eq_false _ ▸ isNamed)
    simp [DefinitionRow.named, rowOf] at self
  have kept : (world.rows.map (world.transaction call.txn).deactivate).filter
      (fun row => row.named tenantId name && row.isActive) = world.active tenantId name := by
    unfold DefinitionWorld.active
    induction world.rows with
    | nil => rfl
    | cons row rest ih =>
      rw [List.map_cons, List.filter_cons, List.filter_cons, ih, named_deactivate]
      cases isNamed : row.named tenantId name with
      | false => simp
      | true =>
        have same := @deactivate_of_not_named (world.transaction call.txn)
          (updateOf call found true) (by rw [isOwn]) row (apart row isNamed)
        rw [same]
  unfold DefinitionWorld.active at kept ⊢
  unfold DefinitionWorld.commit
  rw [List.filter_append, kept, isOwn]
  simp [new]

omit current in
theorem transaction_commit_ne {other : Nat} (different : other ≠ call.txn) :
    (world.commit call).transaction other = world.transaction other :=
  transaction_wrote_ne different {}

omit current in
theorem transaction_commit_self : (world.commit call).transaction call.txn = {} :=
  transaction_wrote_self call.txn {}

/-- A commit that changes no active row. -/
theorem InForce.commit_of_none (ended : after = { call with stage := .ended })
    (active : ∀ tenantId name, (world.commit call).active tenantId name = world.active tenantId
      name) (same : world.returned call = world.latest) :
    InForce checksum (world.commit call) (Function.update all call.txn (some after)) := by
  subst ended
  refine current.change rfl transaction_commit_self
    (fun _ different => transaction_commit_ne different) ?_ ?_
  · intro j _ update _ row member
    rwa [active] at member
  · intro tenantId name
    rw [active, current.one]
    exact congrArg (fun latest => (latest tenantId name).toList) same.symm

/-- The version that is registered again is the last one activated. -/
theorem returned_of_active
    (listed : call.activate = true → ∃ row ∈ world.rows, row.tenantId = call.tenantId ∧
      row.definition = call.definition ∧ row.isActive = true) :
    world.returned call = world.latest := by
  unfold DefinitionWorld.returned
  cases activates : call.activate with
  | false => rfl
  | true =>
    obtain ⟨row, member, tenant, definition, isActive⟩ := listed activates
    have isNamed : row.named call.tenantId call.definition.name = true := by
      simp [DefinitionRow.named, tenant, definition]
    have among : row ∈ world.active call.tenantId call.definition.name :=
      List.mem_filter.mpr ⟨member, by rw [isNamed, isActive]; rfl⟩
    have known : world.latest call.tenantId call.definition.name = some call.definition := by
      have mapped := List.mem_map_of_mem (f := DefinitionRow.definition) among
      rw [current.one, definition] at mapped
      exact Option.mem_toList.mp mapped
    funext tenantId name
    simp only [if_true]
    split
    · next same =>
      obtain ⟨rfl, rfl⟩ := same
      exact known.symm
    · rfl

theorem InForce.commit (noted : all call.txn = some call)
    (due : call.stage = .registered ∨ call.stage = .inserted)
    (timely : Unrivalled call world .commit) (ended : after = { call with stage := .ended }) :
    InForce checksum (world.commit call) (Function.update all call.txn (some after)) := by
  have fits := current.fits call.txn call noted
  unfold Fits at fits
  rcases due with stage | stage
  · simp only [stage] at fits
    have rows : (world.commit call).rows = world.rows := by
      rw [rows_commit_of_none (by rw [fits]), fits]
      exact List.append_nil _
    refine current.commit_of_none ended (fun tenantId name => ?_) ?_
    · unfold DefinitionWorld.active
      rw [rows]
    · refine returned_of_active current fun activates => ?_
      have listed := timely activates
      rwa [if_pos stage] at listed
  · simp only [stage] at fits
    cases activates : call.activate with
    | false =>
      rw [activates, if_neg Bool.false_ne_true] at fits
      refine current.commit_of_none ended (fun tenantId name => ?_) ?_
      · unfold DefinitionWorld.active
        rw [rows_commit_of_none (by rw [fits]), fits]
        simp [rowOf, activates]
      · simp [DefinitionWorld.returned, activates]
    | true =>
      rw [activates, if_pos rfl] at fits
      obtain ⟨found, covers, isOwn⟩ := fits
      have alone := timely activates
      rw [if_neg (by rw [stage]; exact nofun)] at alone
      subst ended
      refine current.change rfl transaction_commit_self
        (fun _ different => transaction_commit_ne different) ?_ ?_
      · intro j different update updates row member
        have elsewhere := alone _ (mem_others different updates) update updates
        rwa [active_commit_other isOwn elsewhere] at member
      · intro tenantId name
        change _ = (world.returned call tenantId name).toList
        unfold DefinitionWorld.returned
        rw [activates, if_pos rfl]
        by_cases same : tenantId = call.tenantId ∧ name = call.definition.name
        · rw [if_pos same, same.1, same.2, active_commit_self covers activates isOwn]
          rfl
        · rw [if_neg same, active_commit_other isOwn same]
          exact current.one tenantId name

/-! ## Runs -/

omit current in
/-- An update finds the rows that are active when it begins. -/
theorem covers_keysOf (world : DefinitionWorld) (call : Registration) :
    Covers world call (world.keysOf call.tenantId call.definition.name) := by
  intro row member
  obtain ⟨listed, holds⟩ := List.mem_filter.mp member
  rw [Bool.and_eq_true] at holds
  exact List.mem_map_of_mem (List.mem_filter.mpr ⟨listed, holds.1⟩)

theorem InForce.performed {op : RegisterOp} {response : op.Result} (noted : all i = some call)
    (due : RegistersWhen checksum call op) (answered : world.answers call op response next)
    (timely : Unrivalled call world op) :
    InForce checksum next (Function.update all i (some (call.track op response))) := by
  obtain rfl := current.txn i call noted
  have fits := current.fits call.txn call noted
  unfold Fits at fits
  cases op with
  | get key =>
    obtain ⟨_, rfl⟩ := answered
    rw [show call.stage = .begun from due] at fits
    refine current.change rfl ?_ (fun _ _ => rfl) (fun _ _ _ _ _ member => member) current.one
    cases response <;> exact fits
  | beginUpdate tenantId name =>
    obtain rfl : next = _ := answered
    obtain ⟨stage, activates, rfl, rfl⟩ := due
    simp only [stage] at fits
    refine current.wrote rfl ⟨world.keysOf call.tenantId call.definition.name, ?_,
      (transaction_wrote_self _ _).trans ?_⟩
    · exact covers_keysOf world call
    · rw [fits]
      rfl
  | finishUpdate =>
    rcases answered with ⟨rfl, _, rfl⟩ | ⟨failure, rfl, rfl⟩
    · rw [show call.stage = .updating from due] at fits
      obtain ⟨found, covers, isOwn⟩ := fits
      refine current.wrote rfl ⟨found, covers, (transaction_wrote_self _ _).trans ?_⟩
      rw [isOwn]
      rfl
    · exact current.rollback rfl rfl
  | insert row =>
    obtain ⟨stage, rfl⟩ := due
    rcases answered with ⟨rfl, _, rfl⟩ | ⟨failure, rfl, rfl⟩
    · refine current.wrote rfl ?_
      cases activates : call.activate with
      | true =>
        rw [activates, if_pos rfl] at stage
        simp only [stage] at fits
        obtain ⟨found, covers, isOwn⟩ := fits
        refine (if_pos activates).mpr ⟨found, covers, (transaction_wrote_self _ _).trans ?_⟩
        rw [isOwn]
        rfl
      | false =>
        rw [activates, if_neg Bool.false_ne_true] at stage
        simp only [stage] at fits
        refine (if_neg (by simp [Registration.track, activates])).mpr
          ((transaction_wrote_self _ _).trans ?_)
        rw [fits]
        rfl
    · exact current.rollback rfl rfl
  | commit =>
    rcases answered with ⟨rfl, rfl⟩ | ⟨failure, rfl, rfl⟩
    · exact current.commit noted due timely rfl
    · exact current.rollback rfl rfl
  | rollback =>
    obtain rfl : next = _ := answered
    exact current.rollback rfl rfl

omit current

/-- The obligations of the proof rule. -/
theorem kept_current : Pool.Kept (timelyRegistering checksum) (fun _ _ _ => True)
    (RegistersWhen checksum) (fun _ _ => True) (fun _ _ => True) (InForce checksum) where
  safe := by
    rintro i _ _ ⟨tenantId, definition, activate, rfl, rfl⟩
    exact safe_register i tenantId definition activate
  spawned := by
    rintro world all i _ _ current absent ⟨tenantId, definition, activate, rfl, rfl⟩
    exact current.change rfl (current.idle i absent) (fun _ _ => rfl)
      (fun _ _ _ _ _ member => member) current.one
  performed := by
    rintro world all i call op response next current noted due ⟨answered, timely⟩
    exact ⟨trivial, current.performed noted due answered timely⟩

end Steps

/-- If calls with `activate` return only when nobody else has begun an update of
the name, and a version that is registered again is the active one, at most one
version of a name is active, and `get_active` returns the one activated last. -/
theorem one_active_version (checksum : Template → String)
    (pool : Pool DefinitionWorld Registration RegisterOp RegisterOp.Result Exn Template)
    (reached : Pool.Run (timelyRegistering checksum) { world := {} } pool)
    (tenantId name : String) :
    (pool.world.active tenantId name).length ≤ 1 ∧
      ∀ definition, pool.world.latest tenantId name = some definition →
        ∀ result, pool.world.getActive tenantId name result ↔ result = some definition := by
  have initial : InForce checksum {} fun _ => none :=
    ⟨nofun, nofun, fun _ _ => rfl, fun _ _ => rfl⟩
  have one := ((Pool.sound_of_empty _ initial).run kept_current reached).holds.one tenantId name
  constructor
  · rw [← List.length_map (f := DefinitionRow.definition), one]
    cases pool.world.latest tenantId name with
    | none => exact Nat.zero_le 1
    | some _ => exact Nat.le_refl 1
  · intro definition latest result
    rw [latest] at one
    cases result with
    | none =>
        refine ⟨fun empty => ?_, nofun⟩
        rw [show pool.world.active tenantId name = [] from empty] at one
        cases one
    | some found =>
        change found ∈ (pool.world.active tenantId name).map DefinitionRow.definition ↔ _
        simp [one]

/-! ## Reports -/

def reportTemplate (version : String) : Template where
  workflowId := "report"
  version := version
  steps := [{ stepId := "write", agentType := "writer" }]
  valid := rfl
  name := "report"

/-- Calls that register versions and activate them, and the statements that they
perform. -/
def reportTurn : Nat × Option String →
    Pool.Turn Registration RegisterOp RegisterOp.Result Exn Template Unit
  | (txn, some version) => .start txn
      { txn := txn, tenantId := "tenant", definition := reportTemplate version, activate := true }
      (register (fun template => template.version) "tenant" (reportTemplate version) true)
  | (txn, none) => .run txn ()

/-- Follow a schedule in which no statement has to wait. -/
def followReports
    (rules : Pool.Rules DefinitionWorld Registration RegisterOp RegisterOp.Result Exn Template)
    (test : Registration → DefinitionWorld → RegisterOp → Bool)
    (schedule : List (Nat × Option String)) :
    Pool DefinitionWorld Registration RegisterOp RegisterOp.Result Exn Template :=
  Pool.follow rules (fun call world op => world.ready call op && test call world op)
    (fun _ call world op => world.answer call op) (schedule.map reportTurn) { world := {} }

variable {call : Registration} {schedule : List (Nat × Option String)} {world : DefinitionWorld}

theorem admits_of_mem_reports {i : Nat} {code : RegisterCode Template}
    (member : .start i call code ∈ schedule.map reportTurn) :
    (registering fun template => template.version).admits i call code := by
  obtain ⟨⟨txn, _ | version⟩, _, starts⟩ := List.mem_map.mp member
  · cases starts
  · cases starts
    exact ⟨_, _, _, rfl, rfl⟩

/-- Each call is the only one whose update is under way. -/
def timelyTest (call : Registration) (world : DefinitionWorld) (_ : RegisterOp) : Bool :=
  call.stage ≠ .registered && (world.others call.txn).all fun other => other.update.isNone

theorem timely_of_test {op : RegisterOp} (passed : timelyTest call world op = true) :
    Unrivalled call world op := by
  simp only [timelyTest, ne_eq, Bool.and_eq_true, decide_eq_true_eq, List.all_eq_true] at passed
  cases op with
  | commit =>
    intro _
    rw [if_neg passed.1]
    intro other member update updates
    have none := passed.2 other member
    rw [updates] at none
    cases none
  | _ => trivial

/-- Two versions are registered one after the other. -/
def reportsInTurn : Pool DefinitionWorld Registration RegisterOp RegisterOp.Result Exn Template :=
  followReports (timelyRegistering fun template => template.version) timelyTest
    ((0, some "1.0.0") :: List.replicate 5 (0, none) ++
      (1, some "2.0.0") :: List.replicate 5 (1, none))

theorem one_active_version_inTurn :
    (reportsInTurn.world.latest "tenant" "report").map (fun template => template.version) =
        some "2.0.0" ∧
      reportsInTurn.world.rows.length = 2 ∧
      (reportsInTurn.world.active "tenant" "report").length ≤ 1 ∧
      ∀ definition, reportsInTurn.world.latest "tenant" "report" = some definition →
        ∀ result, reportsInTurn.world.getActive "tenant" "report" result ↔
          result = some definition := by
  have answered (choice : Unit) (call : Registration) (world : DefinitionWorld) (op : RegisterOp)
      (passed : (world.ready call op && timelyTest call world op) = true) :
      (timelyRegistering fun template => template.version).answers call world op
        (world.answer call op).1 (world.answer call op).2 := by
    rw [Bool.and_eq_true] at passed
    exact ⟨world.answers_answer call op passed.1, timely_of_test passed.2⟩
  have run : Pool.Run (timelyRegistering fun template => template.version) { world := {} }
      reportsInTurn :=
    Pool.run_follow answered _ (fun _ _ _ => admits_of_mem_reports) _
  exact ⟨by decide +kernel, by decide +kernel, one_active_version _ _ run "tenant" "report"⟩

theorem run_followReports (schedule : List (Nat × Option String)) :
    Pool.Run (registering fun template => template.version) { world := {} }
      (followReports (registering fun template => template.version) (fun _ _ _ => true)
        schedule) := by
  refine Pool.run_follow (fun _ call world op passed => ?_) _
    (fun _ _ _ => admits_of_mem_reports) _
  rw [Bool.and_true] at passed
  exact world.answers_answer call op passed

/-- Two calls side by side activate both their versions; and a call that
registers an older version again returns while the newer one stays active. -/
theorem active_versions_wrong :
    (∃ pool, Pool.Run (registering fun template => template.version) { world := {} } pool ∧
      (pool.world.active "tenant" "report").map (fun row => row.definition.version) =
        ["1.0.0", "2.0.0"]) ∧
    ∃ pool, Pool.Run (registering fun template => template.version) { world := {} } pool ∧
      (pool.world.latest "tenant" "report").map (fun template => template.version) =
        some "1.0.0" ∧
      (pool.world.active "tenant" "report").map (fun row => row.definition.version) =
        ["2.0.0"] := by
  constructor
  · have run := run_followReports ([(0, some "1.0.0"), (1, some "2.0.0")] ++
      (List.replicate 5 [(0, none), (1, none)]).flatten)
    exact ⟨_, run, by decide +kernel⟩
  · have run := run_followReports ((0, some "1.0.0") :: List.replicate 5 (0, none) ++
      (1, some "2.0.0") :: List.replicate 5 (1, none) ++
      [(2, some "1.0.0"), (2, none), (2, none)])
    exact ⟨_, run, by decide +kernel⟩

end AgentForge.Guarantees
