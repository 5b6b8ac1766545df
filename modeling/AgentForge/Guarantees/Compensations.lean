import AgentForge.Guarantees.Effects

/-!
# Rollbacks that fail and are tried again

One call of `compensate_instance` undoes executed rows from the newest on and
stops at the first provider that fails.  Whatever the providers answer, each
call takes a suffix of the claim order off the executed rows, so that the calls
together undo every row once, newest first.
-/

namespace AgentForge.Guarantees

open Effects Engine Library

/-- The outbox, with the keys of the rows that a provider has undone. -/
structure Ledger where
  outside : Outside
  undone : List String := []

/-- The answers of the outbox and of the providers, and what has been undone. -/
def Ledger.answers (ledger : Ledger) : (op : GuardOp) → op.Result → Ledger → Prop
  | .compensate provider request executed, response, next =>
      ledger.outside.answers (.compensate provider request executed) response next.outside ∧
        next.undone = match response with
          | .ok _ => ledger.undone ++ [request.idempotencyKey]
          | .error _ => ledger.undone
  | op, response, next =>
      ledger.outside.answers op response next.outside ∧ next.undone = ledger.undone

/-- The keys of the executed rows of an instance, in the order of their claims. -/
def executedKeys (outside : Outside) (instanceId tenantId : String) : List String :=
  (outside.listed instanceId tenantId .executed).map OutboxEntry.idempotencyKey

/-- What a rollback has done to the rows: some were undone, and at one it may have
stopped. -/
structure Undone (start final : Ledger) (done : List OutboxEntry) (stopped : Option OutboxEntry) :
    Prop where
  undone : final.undone = start.undone ++ done.map OutboxEntry.idempotencyKey
  handed : final.outside.handed = start.outside.handed ++
    (done ++ stopped.toList).map OutboxEntry.idempotencyKey
  order : final.outside.rows.keys = start.outside.rows.keys
  compensated : ∀ row ∈ done,
    final.outside.rows.get? row.idempotencyKey = some (Marking.compensated.apply row)
  halted : ∀ row, stopped = some row → ∃ later,
    final.outside.rows.get? row.idempotencyKey = some later ∧
      (later = row ∨ ∃ error, later = (Marking.compensationFailed error).apply row)
  others : ∀ key ∉ (done ++ stopped.toList).map OutboxEntry.idempotencyKey,
    final.outside.rows.get? key = start.outside.rows.get? key

namespace Undone

variable {start middle final : Ledger} {row : OutboxEntry} {done : List OutboxEntry}
  {stopped : Option OutboxEntry}

theorem refl (start : Ledger) : Undone start start [] none where
  undone := by simp
  handed := by simp
  order := rfl
  compensated := nofun
  halted := nofun
  others := fun _ _ => rfl

/-- One row more at the front. -/
theorem cons (first : Undone start middle [row] none) (rest : Undone middle final done stopped)
    (fresh : row.idempotencyKey ∉ (done ++ stopped.toList).map OutboxEntry.idempotencyKey) :
    Undone start final (row :: done) stopped where
  undone := by rw [rest.undone, first.undone, List.append_assoc]; rfl
  handed := by rw [rest.handed, first.handed, List.append_assoc]; rfl
  order := rest.order.trans first.order
  compensated := by
    intro other listed
    rcases List.mem_cons.mp listed with rfl | listed
    · rw [rest.others _ fresh]
      exact first.compensated _ List.mem_cons_self
    · exact rest.compensated other listed
  halted := rest.halted
  others := by
    intro key notListed
    rw [List.cons_append, List.map_cons, List.mem_cons, not_or] at notListed
    rw [rest.others key notListed.2]
    exact first.others key (by simpa using notListed.1)

end Undone

section Undo

variable {guard : SideEffectGuard} {instanceId tenantId : String} {start : Ledger}
  {row : OutboxEntry} {final : Ledger}

/-- Marking a stored row. -/
private theorem keys_marked {outside : Outside} {key : String}
    (stored : outside.rows.get? key = some row) (marking : Marking) :
    (outside.marked key marking).keys = outside.rows.keys := by
  unfold Outside.marked
  rw [stored]
  exact Dict.keys_set_of_mem (Dict.mem_keys_iff_get?.mpr ⟨row, stored⟩) _

/-- Nothing but the failure of one row has been noted. -/
private theorem Undone.of_failure {row later : OutboxEntry} (undone : final.undone = start.undone)
    (handed : final.outside.handed = start.outside.handed ++ [row.idempotencyKey])
    (order : final.outside.rows.keys = start.outside.rows.keys)
    (found : final.outside.rows.get? row.idempotencyKey = some later)
    (noted : later = row ∨ ∃ error, later = (Marking.compensationFailed error).apply row)
    (others : ∀ key ≠ row.idempotencyKey,
      final.outside.rows.get? key = start.outside.rows.get? key) :
    Undone start final [] (some row) where
  undone := by simpa using undone
  handed := handed
  order := order
  compensated := nofun
  halted := by
    rintro _ ⟨⟩
    exact ⟨later, found, noted⟩
  others := fun key notListed => others key (by simpa using notListed)

/-- One row has been undone. -/
private theorem Undone.of_success (undone : final.undone = start.undone ++ [row.idempotencyKey])
    (handed : final.outside.handed = start.outside.handed ++ [row.idempotencyKey])
    (order : final.outside.rows.keys = start.outside.rows.keys)
    (found : final.outside.rows.get? row.idempotencyKey = some (Marking.compensated.apply row))
    (others : ∀ key ≠ row.idempotencyKey,
      final.outside.rows.get? key = start.outside.rows.get? key) :
    Undone start final [row] none where
  undone := undone
  handed := handed
  order := order
  compensated := by
    intro other listed
    rw [List.mem_singleton.mp listed]
    exact found
  halted := nofun
  others := fun key notListed => others key (by simpa using notListed)

/-- The loop undoes its rows in order until a provider fails. -/
theorem safe_undo {rows : List OutboxEntry} (nodup : (rows.map OutboxEntry.idempotencyKey).Nodup)
    (stored : ∀ row ∈ rows, start.outside.rows.get? row.idempotencyKey = some row)
    (registered : ∀ row ∈ rows, guard.providers row.provider ≠ none) :
    Program.Safe Ledger.answers (fun _ _ => True) (fun _ final => Undone start final rows none)
      (fun _ final => ∃ done row rest, rows = done ++ row :: rest ∧
        Undone start final done (some row)) (guard.undo instanceId tenantId rows) start := by
  induction rows generalizing start with
  | nil => exact .refl start
  | cons row rest ih =>
    obtain ⟨provider, found⟩ :=
      Option.ne_none_iff_exists'.mp (registered row List.mem_cons_self)
    have storedRow := stored row List.mem_cons_self
    rw [List.map_cons, List.nodup_cons] at nodup
    unfold SideEffectGuard.undo SideEffectGuard.provider
    rw [found]
    refine ⟨trivial, ?_⟩
    rintro (failure | compensation) ⟨outside, undone⟩ ⟨asked, noted⟩
    · obtain rfl : outside = _ := asked
      obtain rfl : undone = _ := noted
      change Program.Safe _ _ _ _ (ite _ _ _) _
      by_cases isException : failure.isException = true
      · rw [if_pos isException]
        refine ⟨trivial, ?_⟩
        rintro _ ⟨outside, undone⟩ ⟨marked, noted⟩
        obtain rfl : outside = _ := marked
        obtain rfl : undone = _ := noted
        refine ⟨[], row, rest, rfl, .of_failure rfl rfl (keys_marked storedRow _) ?_
          (.inr ⟨failure.message, rfl⟩) fun key different => ?_⟩
        · dsimp only
          rw [get?_marked, if_pos rfl, storedRow]
          rfl
        · dsimp only
          rw [get?_marked, if_neg different]
      · rw [if_neg isException]
        exact ⟨[], row, rest, rfl, .of_failure rfl rfl rfl storedRow (.inl rfl) fun _ _ => rfl⟩
    · obtain rfl : outside = _ := asked
      obtain rfl : undone = _ := noted
      refine ⟨trivial, ?_⟩
      rintro _ middle ⟨marked, noted⟩
      have first : Undone start middle [row] none := by
        apply Undone.of_success
        · exact noted
        · rw [marked]
          rfl
        · rw [marked]
          exact keys_marked storedRow _
        · rw [marked]
          dsimp only
          rw [get?_marked, if_pos rfl, storedRow]
          rfl
        · intro key different
          rw [marked]
          dsimp only
          rw [get?_marked, if_neg different]
      have storedRest : ∀ other ∈ rest,
          middle.outside.rows.get? other.idempotencyKey = some other := by
        intro other member
        rw [first.others]
        · exact stored other (List.mem_cons_of_mem _ member)
        · intro listed
          have same : other.idempotencyKey = row.idempotencyKey := by simpa using listed
          exact nodup.1 (same ▸ List.mem_map_of_mem member)
      have later : Program.Safe Ledger.answers (fun _ _ => True)
          (fun _ final => Undone start final (row :: rest) none)
          (fun _ final => ∃ done halted others, row :: rest = done ++ halted :: others ∧
            Undone start final done (some halted))
          (guard.undo instanceId tenantId rest) middle := by
        refine (ih nodup.2 storedRest fun other member =>
          registered other (List.mem_cons_of_mem _ member)).mono (fun _ _ holds => holds) ?_ ?_
        · intro _ final undone
          exact first.cons undone (by simpa using nodup.1)
        · rintro _ final ⟨done, halted, others, split, undone⟩
          refine ⟨row :: done, halted, others, by rw [split, List.cons_append], ?_⟩
          apply first.cons undone
          intro listed
          apply nodup.1
          rw [Option.toList_some, List.map_append, List.map_singleton] at listed
          rw [split, List.append_cons, List.map_append, List.map_append, List.map_singleton]
          exact List.mem_append_left _ listed
      change Program.Safe _ _ _ _ (guard.undo instanceId tenantId rest >>= _) middle
      exact later.bind fun _ _ undone => undone

end Undo

/-! ## The executed rows -/

section Rows

variable {guard : SideEffectGuard} {outside : Outside} {instanceId tenantId : String}
  {start final : Ledger}

/-- An executed row of the instance. -/
def isExecuted (instanceId tenantId : String) (row : OutboxEntry) : Bool :=
  row.instanceId = instanceId && row.tenantId = tenantId && row.status = .executed

/-- The providers of the executed rows are registered. -/
def Registered (guard : SideEffectGuard) (instanceId tenantId : String) (outside : Outside) :
    Prop :=
  ∀ key row, outside.rows.get? key = some row → isExecuted instanceId tenantId row = true →
    guard.providers row.provider ≠ none

theorem stored_of_mem_listed (keyed : Keyed outside) {row : OutboxEntry}
    (listed : row ∈ outside.listed instanceId tenantId .executed) :
    outside.rows.get? row.idempotencyKey = some row ∧
      isExecuted instanceId tenantId row = true := by
  obtain ⟨isValue, executed⟩ := List.mem_filter.mp listed
  obtain ⟨key, stored⟩ := Dict.mem_values_iff.mp isValue
  exact ⟨keyed key row stored ▸ stored, executed⟩

/-- The executed rows are those whose keys lead to one. -/
theorem executedKeys_eq (keyed : Keyed outside) :
    executedKeys outside instanceId tenantId = outside.rows.keys.filter fun key =>
      (outside.rows.get? key).any (isExecuted instanceId tenantId) := by
  have stored : ∀ entry ∈ outside.rows.entries, entry.2.idempotencyKey = entry.1 ∧
      outside.rows.get? entry.1 = some entry.2 := by
    intro entry member
    have found := Dict.get?_eq_some_iff.mpr member
    exact ⟨keyed _ _ found, found⟩
  unfold executedKeys Outside.listed Dict.keys Dict.values
  generalize outside.rows.entries = entries at stored
  induction entries with
  | nil => rfl
  | cons entry rest ih =>
    obtain ⟨key, found⟩ := stored entry List.mem_cons_self
    have others := ih fun other member => stored other (List.mem_cons_of_mem _ member)
    rw [List.map_cons, List.map_cons, List.filter_cons, List.filter_cons, found, Option.any_some]
    change List.map _ (if isExecuted instanceId tenantId entry.2 = true then _ else _) = _
    by_cases executed : isExecuted instanceId tenantId entry.2 = true
    · rw [if_pos executed, if_pos executed, List.map_cons, key, others]
    · rw [if_neg executed, if_neg executed, others]

theorem nodup_executedKeys (keyed : Keyed outside) :
    (executedKeys outside instanceId tenantId).Nodup := by
  rw [executedKeys_eq keyed]
  exact outside.rows.nodup.filter _

/-- One call of `compensate_instance`: the rows it has undone, those it has kept
and the one at which it has stopped, in the order of their claims. -/
structure CallEffect (instanceId tenantId : String) (start final : Ledger)
    (kept : List OutboxEntry) (stopped : Option OutboxEntry) (undone : List OutboxEntry) :
    Prop where
  rows : start.outside.listed instanceId tenantId .executed = kept ++ stopped.toList ++ undone
  newestFirst : Undone start final undone.reverse stopped
  compensated : ∀ row ∈ undone,
    (final.outside.rows.get? row.idempotencyKey).map OutboxEntry.status = some .compensated
  executed : ∀ row ∈ kept ++ stopped.toList,
    (final.outside.rows.get? row.idempotencyKey).map OutboxEntry.status = some .executed
  untouched : ∀ key ∉ executedKeys start.outside instanceId tenantId,
    final.outside.rows.get? key = start.outside.rows.get? key

/-- A call that returns has undone every executed row; one that raises has
stopped at a row. -/
def Effected (instanceId tenantId : String) (start final : Ledger) :
    Except Exn (List Outcome) → Prop
  | .ok _ => CallEffect instanceId tenantId start final [] none
      (start.outside.listed instanceId tenantId .executed)
  | .error _ => ∃ kept row undone,
      CallEffect instanceId tenantId start final kept (some row) undone

/-- What an undone prefix of the reversed claim order amounts to. -/
private theorem CallEffect.of_undone {kept undone : List OutboxEntry}
    {stopped : Option OutboxEntry} (keyed : Keyed start.outside)
    (rows : start.outside.listed instanceId tenantId .executed = kept ++ stopped.toList ++ undone)
    (effect : Undone start final undone.reverse stopped) :
    CallEffect instanceId tenantId start final kept stopped undone := by
  have nodup := @nodup_executedKeys start.outside instanceId tenantId keyed
  have tried : ∀ key, key ∈ (undone.reverse ++ stopped.toList).map OutboxEntry.idempotencyKey ↔
      key ∈ (stopped.toList ++ undone).map OutboxEntry.idempotencyKey := by
    intro key
    simp [or_comm]
  constructor
  case rows => exact rows
  case newestFirst => exact effect
  case compensated =>
    intro row member
    rw [effect.compensated row (List.mem_reverse.mpr member)]
    rfl
  case executed =>
    intro row member
    have listed : row ∈ start.outside.listed instanceId tenantId .executed := by
      rw [rows]
      exact List.mem_append_left _ member
    obtain ⟨stored, isExecuted⟩ := stored_of_mem_listed keyed listed
    have status : row.status = .executed := by
      simp only [Guarantees.isExecuted, Bool.and_eq_true, decide_eq_true_eq] at isExecuted
      exact isExecuted.2
    rcases List.mem_append.mp member with inKept | isStopped
    · rw [effect.others, stored, Option.map_some, status]
      rw [tried]
      intro again
      rw [executedKeys, rows, List.append_assoc, List.map_append] at nodup
      exact (List.nodup_append.mp nodup).2.2 _ (List.mem_map_of_mem inKept) _ again rfl
    · obtain ⟨later, found, noted⟩ := effect.halted row (Option.mem_toList.mp isStopped)
      rw [found, Option.map_some]
      rcases noted with rfl | ⟨error, rfl⟩
      · rw [status]
      · exact congrArg some status
  case untouched =>
    intro key notExecuted
    apply effect.others
    rw [tried]
    intro listed
    apply notExecuted
    rw [executedKeys, rows, List.append_assoc, List.map_append]
    exact List.mem_append_right _ listed

theorem safe_compensateInstance (keyed : Keyed start.outside)
    (registered : Registered guard instanceId tenantId start.outside) :
    Program.Safe Ledger.answers (fun _ _ => True)
      (fun value final => Effected instanceId tenantId start final (.ok value))
      (fun failure final => Effected instanceId tenantId start final (.error failure))
      (guard.compensateInstance instanceId tenantId) start := by
  refine ⟨trivial, ?_⟩
  rintro rows ⟨outside, undone⟩ ⟨⟨listed, same⟩, noted⟩
  obtain rfl : outside = start.outside := same
  obtain rfl : undone = start.undone := noted
  obtain rfl : rows = start.outside.listed instanceId tenantId .executed := listed
  have nodup : ((start.outside.listed instanceId tenantId .executed).reverse.map
      OutboxEntry.idempotencyKey).Nodup := by
    rw [List.map_reverse, List.nodup_reverse]
    exact nodup_executedKeys keyed
  refine (safe_undo nodup (fun row member => ?_) fun row member => ?_).mono
    (fun _ _ holds => holds) ?_ ?_
  · exact (stored_of_mem_listed keyed (List.mem_reverse.mp member)).1
  · obtain ⟨stored, executed⟩ := stored_of_mem_listed keyed (List.mem_reverse.mp member)
    exact registered _ row stored executed
  · intro _ final effect
    exact .of_undone keyed (by simp) effect
  · rintro _ final ⟨done, row, rest, split, effect⟩
    refine ⟨rest.reverse, row, done.reverse, .of_undone keyed ?_ (by simpa using effect)⟩
    rw [← List.reverse_reverse (start.outside.listed instanceId tenantId .executed), split]
    simp

end Rows

/-! ## Calls one after another -/

section Calls

variable {guard : SideEffectGuard} {instanceId tenantId : String} {start middle final : Ledger}

variable {kept undone : List OutboxEntry} {stopped : Option OutboxEntry}

variable (effect : CallEffect instanceId tenantId start final kept stopped undone)
  {result : Except Exn (List Outcome)}

include effect

/-- What is stored after a call: an undone row, a row marked as failed, or what
was stored before. -/
private theorem CallEffect.lookup (keyed : Keyed start.outside) (key : String) :
    (∃ old ∈ undone, old.idempotencyKey = key ∧
        final.outside.rows.get? key = some (Marking.compensated.apply old)) ∨
      key ∉ undone.map OutboxEntry.idempotencyKey ∧
        (final.outside.rows.get? key = start.outside.rows.get? key ∨
          ∃ old error, start.outside.rows.get? key = some old ∧
            final.outside.rows.get? key = some ((Marking.compensationFailed error).apply old)) := by
  by_cases isUndone : key ∈ undone.map OutboxEntry.idempotencyKey
  · obtain ⟨old, member, rfl⟩ := List.mem_map.mp isUndone
    exact .inl ⟨old, member, rfl,
      effect.newestFirst.compensated old (List.mem_reverse.mpr member)⟩
  · refine .inr ⟨isUndone, ?_⟩
    by_cases isStopped : key ∈ stopped.toList.map OutboxEntry.idempotencyKey
    · obtain ⟨old, member, rfl⟩ := List.mem_map.mp isStopped
      have listed : old ∈ start.outside.listed instanceId tenantId .executed := by
        rw [effect.rows]
        exact List.mem_append_left _ (List.mem_append_right _ member)
      have stored := (stored_of_mem_listed keyed listed).1
      obtain ⟨later, found, rfl | ⟨error, rfl⟩⟩ :=
        effect.newestFirst.halted old (Option.mem_toList.mp member)
      · exact .inl (found.trans stored.symm)
      · exact .inr ⟨old, error, stored, found⟩
    · refine .inl (effect.newestFirst.others key ?_)
      rw [List.map_append, List.mem_append, List.map_reverse, List.mem_reverse]
      exact fun tried => tried.elim isUndone isStopped

private theorem CallEffect.keyed (keyed : Keyed start.outside) : Keyed final.outside := by
  intro key row found
  rcases effect.lookup keyed key with ⟨old, _, rfl, now⟩ | ⟨_, same | ⟨old, error, stored, now⟩⟩
  · cases now.symm.trans found
    rfl
  · exact keyed key row (same ▸ found)
  · cases now.symm.trans found
    exact keyed key old stored

private theorem CallEffect.registered (keyed : Keyed start.outside)
    (registered : Registered guard instanceId tenantId start.outside) :
    Registered guard instanceId tenantId final.outside := by
  intro key row found executed
  rcases effect.lookup keyed key with ⟨old, _, _, now⟩ | ⟨_, same | ⟨old, error, stored, now⟩⟩
  · cases now.symm.trans found
    simp [isExecuted, Marking.apply] at executed
  · exact registered key row (same ▸ found) executed
  · cases now.symm.trans found
    exact registered key old stored executed

/-- A call takes the rows it has undone off the end of the claim order. -/
private theorem CallEffect.executedKeys_eq (keyed : Keyed start.outside) :
    executedKeys start.outside instanceId tenantId =
      executedKeys final.outside instanceId tenantId ++ undone.map OutboxEntry.idempotencyKey := by
  have nodup := @nodup_executedKeys start.outside instanceId tenantId keyed
  have split : executedKeys start.outside instanceId tenantId =
      (kept ++ stopped.toList).map OutboxEntry.idempotencyKey ++
        undone.map OutboxEntry.idempotencyKey := by
    rw [executedKeys, effect.rows, List.map_append]
  have still : ∀ key, (final.outside.rows.get? key).any (isExecuted instanceId tenantId) =
      (decide (key ∉ undone.map OutboxEntry.idempotencyKey) &&
        (start.outside.rows.get? key).any (isExecuted instanceId tenantId)) := by
    intro key
    rcases effect.lookup keyed key with
      ⟨old, member, rfl, now⟩ | ⟨kept, same | ⟨old, error, stored, now⟩⟩
    · have listed : old.idempotencyKey ∈ undone.map OutboxEntry.idempotencyKey :=
        List.mem_map_of_mem member
      simp [now, listed, isExecuted, Marking.apply]
    · rw [same, decide_eq_true kept, Bool.true_and]
    · rw [now, stored, decide_eq_true kept, Bool.true_and]
      rfl
  have remaining : executedKeys final.outside instanceId tenantId =
      (executedKeys start.outside instanceId tenantId).filter fun key =>
        key ∉ undone.map OutboxEntry.idempotencyKey := by
    rw [Guarantees.executedKeys_eq (effect.keyed keyed), Guarantees.executedKeys_eq keyed,
      effect.newestFirst.order, List.filter_filter]
    simp only [still]
  rw [split, List.nodup_append] at nodup
  rw [remaining, split, List.filter_append]
  have front : ((kept ++ stopped.toList).map OutboxEntry.idempotencyKey).filter (fun key =>
      key ∉ undone.map OutboxEntry.idempotencyKey) =
        (kept ++ stopped.toList).map OutboxEntry.idempotencyKey := by
    rw [List.filter_eq_self]
    intro key member
    simpa using fun listed => nodup.2.2 key member key listed rfl
  have back : (undone.map OutboxEntry.idempotencyKey).filter (fun key =>
      key ∉ undone.map OutboxEntry.idempotencyKey) = [] := by
    rw [List.filter_eq_nil_iff]
    simp
  rw [front, back, List.append_nil]

/-- Calls of `compensate_instance` that run to their end, one after another, and
what they return or raise. -/
inductive Rollbacks (guard : SideEffectGuard) (instanceId tenantId : String) (start : Ledger) :
    List (Except Exn (List Outcome)) → Ledger → Prop
  | none : Rollbacks guard instanceId tenantId start [] start
  | call {middle final : Ledger} {results : List (Except Exn (List Outcome))}
      {result : Except Exn (List Outcome)} :
      Rollbacks guard instanceId tenantId start results middle →
      Program.Steps Ledger.answers middle (guard.compensateInstance instanceId tenantId) final
        (Program.ended result) →
      Rollbacks guard instanceId tenantId start (results ++ [result]) final

omit effect

theorem effected_of_call (keyed : Keyed start.outside)
    (registered : Registered guard instanceId tenantId start.outside)
    (call : Program.Steps Ledger.answers start (guard.compensateInstance instanceId tenantId) final
      (Program.ended result)) : Effected instanceId tenantId start final result := by
  have ended := (safe_compensateInstance keyed registered).steps call
  cases result with
  | ok value => exact ended
  | error failure => exact ended

theorem CallEffect.exists_of_effected (effected : Effected instanceId tenantId start final result) :
    ∃ kept stopped undone, CallEffect instanceId tenantId start final kept stopped undone ∧
      ∀ value, result = .ok value → kept ++ stopped.toList = [] := by
  cases result with
  | ok value => exact ⟨[], none, _, effected, fun _ _ => rfl⟩
  | error failure =>
    obtain ⟨kept, row, undone, effect⟩ := effected
    exact ⟨kept, some row, undone, effect, nofun⟩

/-- What the calls so far have left: a prefix of the claim order is still
executed, and the rest has been undone, newest first. -/
structure Progress (guard : SideEffectGuard) (instanceId tenantId : String) (start final : Ledger)
    (results : List (Except Exn (List Outcome))) : Prop where
  keyed : Keyed final.outside
  registered : Registered guard instanceId tenantId final.outside
  undone : ∃ undone, final.undone = start.undone ++ undone ∧
    executedKeys start.outside instanceId tenantId =
      executedKeys final.outside instanceId tenantId ++ undone.reverse
  finished : ∀ value, results.getLast? = some (.ok value) →
    executedKeys final.outside instanceId tenantId = []

theorem Rollbacks.progress {results : List (Except Exn (List Outcome))}
    (keyed : Keyed start.outside) (registered : Registered guard instanceId tenantId start.outside)
    (calls : Rollbacks guard instanceId tenantId start results final) :
    Progress guard instanceId tenantId start final results := by
  induction calls with
  | none => exact ⟨keyed, registered, ⟨[], by simp, by simp⟩, nofun⟩
  | @call middle final results result _ last ih =>
    obtain ⟨keyed, registered, ⟨before, undone, order⟩, _⟩ := ih
    obtain ⟨kept, stopped, rows, effect, complete⟩ :=
      CallEffect.exists_of_effected (effected_of_call keyed registered last)
    have taken := effect.executedKeys_eq keyed
    refine ⟨effect.keyed keyed, effect.registered keyed registered,
      ⟨before ++ (rows.map OutboxEntry.idempotencyKey).reverse, ?_, ?_⟩, ?_⟩
    · rw [effect.newestFirst.undone, undone, List.map_reverse, List.append_assoc]
    · rw [order, taken, List.reverse_append, List.reverse_reverse, List.append_assoc]
    · intro value isLast
      rw [List.getLast?_concat, Option.some.injEq] at isLast
      have all : executedKeys middle.outside instanceId tenantId =
          rows.map OutboxEntry.idempotencyKey := by
        rw [executedKeys, effect.rows, complete value isLast, List.nil_append]
      rw [all] at taken
      exact List.self_eq_append_left.mp taken

/-- Compensation is ordered and resumable: along any sequence of calls, every call
hands the executed rows to their providers newest first, and leaves exactly the
rows claimed up to the one it stops at; the calls together undo no row twice, and
each of them once if the last call succeeds. -/
theorem compensation_resumable (keyed : Keyed start.outside)
    (registered : Registered guard instanceId tenantId start.outside)
    {results : List (Except Exn (List Outcome))}
    (calls : Rollbacks guard instanceId tenantId start results middle) :
    (∀ final result, Program.Steps Ledger.answers middle
        (guard.compensateInstance instanceId tenantId) final (Program.ended result) →
      Effected instanceId tenantId middle final result) ∧
    ∃ undone, middle.undone = start.undone ++ undone ∧
      executedKeys start.outside instanceId tenantId =
        executedKeys middle.outside instanceId tenantId ++ undone.reverse ∧
      (∀ key, undone.count key ≤ 1) ∧
      ∀ value, results.getLast? = some (.ok value) →
        ∀ key ∈ executedKeys start.outside instanceId tenantId, undone.count key = 1 := by
  have progress := calls.progress keyed registered
  refine ⟨fun final result => effected_of_call progress.keyed progress.registered, ?_⟩
  obtain ⟨undone, ledger, order⟩ := progress.undone
  have nodup := @nodup_executedKeys start.outside instanceId tenantId keyed
  have once : undone.Nodup := by
    rw [order] at nodup
    exact List.nodup_reverse.mp (List.nodup_append.mp nodup).2.1
  refine ⟨undone, ledger, order, List.nodup_iff_count_le_one.mp once, ?_⟩
  intro value isLast key listed
  rw [order, progress.finished value isLast, List.nil_append, List.mem_reverse] at listed
  exact List.count_eq_one_of_mem once listed

end Calls

/-! ## A refund that fails once -/

/-- The row of a charge that has been made, and of the mail that has told so. -/
def chargedAndMailed : Ledger where
  outside := { rows := Dict.ofList [
    ("instance:pay:charge",
      { idempotencyKey := "instance:pay:charge", instanceId := "instance", tenantId := "tenant",
        stepId := "pay", effectName := "charge", provider := "noop", params := Dict.empty,
        status := .executed, attempts := 1 }),
    ("instance:notify:mail",
      { idempotencyKey := "instance:notify:mail", instanceId := "instance", tenantId := "tenant",
        stepId := "notify", effectName := "mail", provider := "noop", params := Dict.empty,
        status := .executed, attempts := 1 })] }

/-- Providers that fail to undo the charge the first time. -/
def Ledger.answer (ledger : Ledger) : (op : GuardOp) → op.Result × Ledger
  | .compensate provider request executed =>
      let refused := request.effectName = "charge" ∧
        request.idempotencyKey ∉ ledger.outside.handed
      let asked := (ledger.outside.answer {} (.compensate provider request executed)).2
      if refused then (.error (.keyError "refund"), { ledger with outside := asked })
      else (.ok none, { outside := asked, undone := ledger.undone ++ [request.idempotencyKey] })
  | op =>
    ((ledger.outside.answer {} op).1, { ledger with outside := (ledger.outside.answer {} op).2 })

theorem Ledger.answers_answer (ledger : Ledger) (op : GuardOp) :
    ledger.answers op (ledger.answer op).1 (ledger.answer op).2 := by
  cases op with
  | compensate provider request executed =>
    unfold Ledger.answer
    dsimp only
    split <;> exact ⟨rfl, rfl⟩
  | claim | mark | listForInstance | execute | reconcile =>
    exact ⟨ledger.outside.answers_answer {} _, rfl⟩

/-- One call of `compensate_instance` with these providers. -/
def rollbackOnce (ledger : Ledger) : Except Exn (List Outcome) × Ledger :=
  Program.evaluate Ledger.answer (mailGuard.compensateInstance "instance" "tenant") ledger

theorem steps_rollbackOnce (ledger : Ledger) :
    Program.Steps Ledger.answers ledger (mailGuard.compensateInstance "instance" "tenant")
      (rollbackOnce ledger).2 (Program.ended (rollbackOnce ledger).1) :=
  @Program.steps_evaluate _ _ _ _ _ Ledger.answers _ Ledger.answer id Ledger.answers_answer
    (mailGuard.compensateInstance "instance" "tenant") ledger

/-- The first call undoes the mail and fails at the charge, the second undoes the
charge. -/
theorem compensation_resumable_chargedAndMailed :
    (rollbackOnce chargedAndMailed).1.isOk = false ∧
    (rollbackOnce (rollbackOnce chargedAndMailed).2).1.isOk = true ∧
    executedKeys (rollbackOnce chargedAndMailed).2.outside "instance" "tenant" =
      ["instance:pay:charge"] ∧
    ∃ undone, (rollbackOnce (rollbackOnce chargedAndMailed).2).2.undone = [] ++ undone ∧
      (∀ key, undone.count key ≤ 1) ∧
      ∀ key ∈ executedKeys chargedAndMailed.outside "instance" "tenant", undone.count key = 1 := by
  have keyed : Keyed chargedAndMailed.outside := by
    intro key row stored
    obtain ⟨entry, member, rfl, rfl⟩ : ∃ entry ∈ chargedAndMailed.outside.rows.entries,
        entry.1 = key ∧ entry.2 = row := ⟨_, Dict.get?_eq_some_iff.mp stored, rfl, rfl⟩
    clear stored
    revert entry
    decide
  have registered : Registered mailGuard "instance" "tenant" chargedAndMailed.outside :=
    fun _ _ _ _ => nofun
  have calls : Rollbacks mailGuard "instance" "tenant" chargedAndMailed
      ([] ++ [(rollbackOnce chargedAndMailed).1] ++
        [(rollbackOnce (rollbackOnce chargedAndMailed).2).1])
      (rollbackOnce (rollbackOnce chargedAndMailed).2).2 :=
    .call (.call .none (steps_rollbackOnce _)) (steps_rollbackOnce _)
  have succeeds : (rollbackOnce (rollbackOnce chargedAndMailed).2).1.isOk = true := by
    decide +kernel
  refine ⟨by decide +kernel, succeeds, by decide +kernel, ?_⟩
  obtain ⟨_, undone, ledger, _, once, exactly⟩ := compensation_resumable keyed registered calls
  refine ⟨undone, ledger, once, ?_⟩
  cases last : (rollbackOnce (rollbackOnce chargedAndMailed).2).1 with
  | ok value => exact exactly value (by rw [last, List.getLast?_concat])
  | error failure =>
      rw [last] at succeeds
      cases succeeds

end AgentForge.Guarantees
