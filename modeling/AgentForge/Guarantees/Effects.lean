import AgentForge.Effects.Guard

/-!
# External actions

A guarded action lands at most once, however often its call is cut off and
repeated, provided that its provider either honours idempotency keys or can tell
whether an earlier attempt has landed.
-/

namespace AgentForge.Guarantees

open Effects Engine Events Library

/-! ## Reliable providers -/

/-- The provider of a request honours idempotency keys. -/
def HonoursKeys (guard : SideEffectGuard) (name : String) (request : EffectRequest) : Prop :=
  ∃ provider, guard.providers name = some provider ∧
    provider.supportsIdempotencyKey request.effectName = true

/-- A provider that honours keys performs an action once per key; any other one
knows at a reconciliation whether the action has landed. -/
def Reliable (guard : SideEffectGuard) (outside : Outside) :
    (op : GuardOp) → op.Result → Outside → Prop
  | .execute name request, _, next => HonoursKeys guard name request →
      outside.HasLanded request.idempotencyKey → next = outside
  | .reconcile name request, response, _ => ¬ HonoursKeys guard name request →
      ((∃ result, response = .ok (some result)) → outside.HasLanded request.idempotencyKey) ∧
        (response = .ok none → ¬ outside.HasLanded request.idempotencyKey)
  | _, _, _ => True

/-- The answers of an outbox and of reliable providers. -/
def reliably (guard : SideEffectGuard) : Semantics Outside GuardOp GuardOp.Result :=
  fun outside op response next =>
    outside.answers op response next ∧ Reliable guard outside op response next

/-! ## At most one landing -/

/-- The actions with the key that have landed. -/
def landings (outside : Outside) (key : String) : Nat :=
  outside.landed.countP fun request => request.idempotencyKey = key

theorem landings_eq_zero_iff {outside : Outside} {key : String} :
    landings outside key = 0 ↔ ¬ outside.HasLanded key := by
  simp [landings, Outside.HasLanded, List.countP_eq_zero]

/-- What holds between the calls of one effect. -/
structure LandsOnce (guard : SideEffectGuard) (call : EffectCall) (outside : Outside) : Prop where
  once : landings outside (guard.idempotencyKey call) ≤ 1
  claimed : outside.HasLanded (guard.idempotencyKey call) →
    ∃ row, outside.rows.get? (guard.idempotencyKey call) = some row
  attempts : ∀ row, outside.rows.get? (guard.idempotencyKey call) = some row → 1 ≤ row.attempts
  registered : ∀ row, outside.rows.get? (guard.idempotencyKey call) = some row →
    ∃ provider, guard.providers call.providerName = some provider

/-- What a call is bound to at its operations. -/
def Careful (guard : SideEffectGuard) (call : EffectCall) (outside : Outside) : GuardOp → Prop
  | .claim entry => entry.idempotencyKey = guard.idempotencyKey call ∧ entry.attempts = 0 ∧
      ∃ provider, guard.providers call.providerName = some provider
  | .mark _ _ => True
  | .execute name request => request = guard.request call ∧
      (HonoursKeys guard name request ∨ ¬ outside.HasLanded request.idempotencyKey) ∧
      ∃ row, outside.rows.get? request.idempotencyKey = some row
  | .reconcile .. => True
  | _ => False

section LandsOnce

variable {guard : SideEffectGuard} {call : EffectCall} {outside next : Outside}

theorem attempts_apply (marking : Marking) (row : OutboxEntry) :
    (marking.apply row).attempts = row.attempts := by
  cases marking <;> rfl

theorem one_le_attempts_claimed {entry : OutboxEntry} : 1 ≤ (outside.claimed entry).attempts := by
  unfold Outside.claimed
  cases outside.rows.get? entry.idempotencyKey with
  | none => exact le_rfl
  | some row => exact Nat.le_add_left 1 row.attempts

/-- The rows of the outbox are stored under their own keys. -/
def Keyed (outside : Outside) : Prop :=
  ∀ key row, outside.rows.get? key = some row → row.idempotencyKey = key

/-- The row of a key after a mark. -/
theorem get?_marked {key other : String} {marking : Marking} :
    (outside.marked key marking).get? other =
      if other = key then (outside.rows.get? key).map marking.apply
      else outside.rows.get? other := by
  unfold Outside.marked
  cases stored : outside.rows.get? key with
  | none =>
    by_cases same : other = key
    · simp [same, stored]
    · simp [same]
  | some row => simp [Dict.get?_set]

theorem LandsOnce.answers {op : GuardOp} {response : op.Result}
    (accounted : LandsOnce guard call outside) (careful : Careful guard call outside op)
    (answered : reliably guard outside op response next) : LandsOnce guard call next := by
  obtain ⟨answered, reliable⟩ := answered
  cases op with
  | claim entry =>
    obtain ⟨_, rfl⟩ := answered
    obtain ⟨sameKey, _, registered⟩ := careful
    have stored : (outside.rows.set entry.idempotencyKey (outside.claimed entry)).get?
        (guard.idempotencyKey call) = some (outside.claimed entry) := by
      rw [sameKey, Dict.get?_set_self]
    constructor
    · exact accounted.once
    · exact fun _ => ⟨_, stored⟩
    · intro row found
      cases stored.symm.trans found
      exact one_le_attempts_claimed
    · exact fun _ _ => registered
  | mark key marking =>
    obtain rfl : next = { outside with rows := outside.marked key marking } := answered
    have rows (row : OutboxEntry)
        (found : (outside.marked key marking).get? (guard.idempotencyKey call) = some row) :
        ∃ old, outside.rows.get? (guard.idempotencyKey call) = some old ∧
          row.attempts = old.attempts := by
      rw [get?_marked] at found
      by_cases same : guard.idempotencyKey call = key
      · rw [if_pos same, Option.map_eq_some_iff] at found
        obtain ⟨old, stored, rfl⟩ := found
        exact ⟨old, same ▸ stored, attempts_apply marking old⟩
      · rw [if_neg same] at found
        exact ⟨row, found, rfl⟩
    constructor
    · exact accounted.once
    · intro landed
      obtain ⟨row, stored⟩ := accounted.claimed landed
      dsimp only
      rw [get?_marked]
      by_cases same : guard.idempotencyKey call = key
      · rw [if_pos same, ← same, stored]
        exact ⟨_, rfl⟩
      · rw [if_neg same]
        exact ⟨row, stored⟩
    · intro row found
      obtain ⟨old, stored, same⟩ := rows row found
      exact same ▸ accounted.attempts old stored
    · intro row found
      obtain ⟨old, stored, _⟩ := rows row found
      exact accounted.registered old stored
  | execute name request =>
    obtain ⟨rfl, mayLand, stored⟩ := careful
    rcases answered with rfl | rfl
    · exact accounted
    · have unlanded : ¬ outside.HasLanded (guard.idempotencyKey call) := by
        rcases mayLand with honours | unlanded
        · intro landed
          have same := congrArg (fun world => world.landed.length) (reliable honours landed)
          simp at same
        · exact unlanded
      refine ⟨?_, fun _ => stored, accounted.attempts, accounted.registered⟩
      have none := landings_eq_zero_iff.mpr unlanded
      unfold landings at none ⊢
      rw [List.countP_append, none, Nat.zero_add]
      exact List.countP_le_length
  | reconcile name request =>
    obtain rfl : next = outside := answered
    exact accounted
  | listForInstance | compensate => exact careful.elim

end LandsOnce

/-! ## The calls -/

/-- Code that keeps to the terms of the call. -/
abbrev Careful.Code {α : Type} (guard : SideEffectGuard) (call : EffectCall) (post : α → Prop)
    (code : GuardCode α) (outside : Outside) : Prop :=
  Program.Safe (reliably guard) (Careful guard call) (fun value _ => post value)
    (fun _ _ => True) code outside

section Calls

variable {guard : SideEffectGuard} {call : EffectCall} {outside : Outside}
  {provider : ActionProvider}

private theorem careful_raiseError {α : Type} {post : α → Prop} {result : Except Exn α}
    (succeeds : ∀ value, result = .ok value → post value) :
    Careful.Code guard call post (raiseError result) outside := by
  cases result with
  | ok value => exact succeeds value rfl
  | error failure => trivial

private theorem careful_execute
    (mayLand : HonoursKeys guard call.providerName (guard.request call) ∨
      ¬ outside.HasLanded (guard.idempotencyKey call))
    (stored : ∃ row, outside.rows.get? (guard.idempotencyKey call) = some row) :
    Careful.Code guard call (fun _ => True)
      (do raiseError (← GuardCode.execute call.providerName (guard.request call))) outside :=
  ⟨⟨rfl, mayLand, stored⟩, fun _ _ _ => careful_raiseError fun _ _ => trivial⟩

variable (registered : guard.providers call.providerName = some provider) {resuming : Bool}

include registered

/-- The provider is asked to perform the action only if it honours keys or the
action has not landed. -/
private theorem careful_ask
    (first : resuming = false → ¬ outside.HasLanded (guard.idempotencyKey call))
    (stored : ∃ row, outside.rows.get? (guard.idempotencyKey call) = some row) :
    Careful.Code guard call (fun _ => True)
      (guard.ask call (provider.supportsIdempotencyKey call.effectName) resuming) outside := by
  unfold SideEffectGuard.ask
  cases supports : provider.supportsIdempotencyKey call.effectName with
  | true =>
    rw [show (resuming && !true) = false by simp]
    exact careful_execute (.inl ⟨provider, registered, supports⟩) stored
  | false =>
    have honoursNot : ¬ HonoursKeys guard call.providerName (guard.request call) := by
      rintro ⟨other, found, honours⟩
      rw [registered] at found
      cases found
      exact absurd (supports.symm.trans honours) (by decide)
    cases resuming with
    | false => exact careful_execute (.inr (first rfl)) stored
    | true =>
      refine ⟨trivial, ?_⟩
      rintro (failure | known) _ ⟨rfl, reliable⟩
      · trivial
      · cases known with
        | none => exact careful_execute (.inr ((reliable honoursNot).2 rfl)) stored
        | some result => trivial

private theorem careful_carryOut
    (first : resuming = false → ¬ outside.HasLanded (guard.idempotencyKey call))
    (stored : ∃ row, outside.rows.get? (guard.idempotencyKey call) = some row) :
    Careful.Code guard call (fun _ => True)
      (guard.carryOut call (provider.supportsIdempotencyKey call.effectName) resuming) outside := by
  refine (careful_ask registered first stored).settle.bind ?_
  rintro (failure | result) world _
  · dsimp only
    split
    · exact ⟨trivial, fun _ _ _ => trivial⟩
    · trivial
  · dsimp only
    split
    · exact ⟨trivial, fun _ _ _ => trivial⟩
    · exact ⟨trivial, fun _ _ _ => trivial⟩

private theorem careful_afterClaim {row : OutboxEntry}
    (first : row.attempts ≤ 1 → ¬ outside.HasLanded (guard.idempotencyKey call))
    (stored : ∃ row, outside.rows.get? (guard.idempotencyKey call) = some row) :
    Careful.Code guard call (fun _ => True)
      (guard.afterClaim call (provider.supportsIdempotencyKey call.effectName) row) outside := by
  have carried : Careful.Code guard call (fun _ => True)
      (guard.carryOut call (provider.supportsIdempotencyKey call.effectName) (1 < row.attempts))
      outside := by
    refine careful_carryOut registered (fun notResuming => first ?_) stored
    rw [decide_eq_false_iff_not] at notResuming
    omega
  unfold SideEffectGuard.afterClaim
  cases row.status with
  | executed => trivial
  | compensated => trivial
  | pending => exact carried
  | failed => exact carried

omit registered

/-- Every call keeps to its terms. -/
theorem careful_call (accounted : LandsOnce guard call outside) :
    Careful.Code guard call (fun _ => True) (guard.execute call) outside := by
  unfold SideEffectGuard.execute SideEffectGuard.provider
  cases registered : guard.providers call.providerName with
  | none => trivial
  | some provider =>
    refine ⟨⟨rfl, rfl, provider, registered⟩, ?_⟩
    rintro row next ⟨⟨rfl, rfl⟩, _⟩
    refine careful_afterClaim registered ?_ ⟨_, Dict.get?_set_self _ _ _⟩
    intro firstAttempt landed
    obtain ⟨old, stored⟩ := accounted.claimed landed
    have earlier := accounted.attempts old stored
    have counted : (outside.claimed (guard.entry call
        (provider.supportsIdempotencyKey call.effectName))).attempts = old.attempts + 1 := by
      unfold Outside.claimed
      rw [show outside.rows.get? (guard.entry call _).idempotencyKey = some old from stored]
    omega

end Calls

/-- The worlds that calls of one effect lead to, one after the other. -/
abbrev CallsLead (guard : SideEffectGuard) (call : EffectCall) : Outside → Outside → Prop :=
  Program.Sessions (reliably guard) (fun program => program = guard.execute call)

section Sequences

variable {guard : SideEffectGuard} {call : EffectCall} {start final : Outside} {row : OutboxEntry}
  {provider : ActionProvider} {outside : Outside}

theorem accounted_of_callsLead (leads : CallsLead guard call start final)
    (accounted : LandsOnce guard call start) : LandsOnce guard call final := by
  have safe (outside : Outside) (program : GuardCode Outcome)
      (holds : LandsOnce guard call outside) (isCall : program = guard.execute call) :
      Careful.Code guard call (fun _ => True) program outside :=
    isCall ▸ careful_call holds
  exact leads.preserves safe
    (fun _ _ _ _ holds careful answered => holds.answers careful answered) accounted

/-- A call that finds the row executed: what it returns. -/
def replayOf (guard : SideEffectGuard) (call : EffectCall) (row : OutboxEntry) : Outcome where
  idempotencyKey := guard.idempotencyKey call
  effectName := call.effectName
  stepId := call.stepId
  params := call.params
  result := row.recorded
  deduplicated := true
  guarantee := row.guarantee

/-- The row of the call is executed and says the same as `row`. -/
def Settled (guard : SideEffectGuard) (call : EffectCall) (row : OutboxEntry)
    (outside : Outside) : Prop :=
  ∃ current, outside.rows.get? (guard.idempotencyKey call) = some current ∧
    current.status = .executed ∧ replayOf guard call current = replayOf guard call row

/-- Once the row is executed, a call claims it and returns what it says. -/
theorem settled_call (registered : guard.providers call.providerName = some provider)
    (settled : Settled guard call row outside) :
    ∃ entry next, guard.execute call = .perform (.claim entry) next ∧
      ∀ response final, reliably guard outside (.claim entry) response final →
        next response = .done (replayOf guard call row) ∧ Settled guard call row final := by
  unfold SideEffectGuard.execute SideEffectGuard.provider
  rw [registered]
  refine ⟨_, _, rfl, ?_⟩
  rintro response final ⟨⟨rfl, rfl⟩, _⟩
  obtain ⟨current, stored, executed, same⟩ := settled
  have claimed : outside.claimed (guard.entry call
      (provider.supportsIdempotencyKey call.effectName)) =
        { current with attempts := current.attempts + 1 } := by
    unfold Outside.claimed
    rw [show outside.rows.get? (guard.entry call _).idempotencyKey = some current from stored]
  rw [claimed]
  constructor
  · change guard.afterClaim call _ { current with attempts := current.attempts + 1 } = _
    unfold SideEffectGuard.afterClaim
    dsimp only
    rw [executed, ← same]
    rfl
  · exact ⟨_, Dict.get?_set_self _ _ _, executed, same⟩

theorem Settled.steps {residual : GuardCode Outcome} (settled : Settled guard call row outside)
    (registered : guard.providers call.providerName = some provider)
    (steps : Program.Steps (reliably guard) outside (guard.execute call) final residual) :
    Settled guard call row final ∧
      (residual = guard.execute call ∨ residual = .done (replayOf guard call row)) := by
  obtain ⟨entry, next, program, after⟩ := settled_call registered settled
  rw [program] at steps ⊢
  cases steps with
  | refl => exact ⟨settled, .inl rfl⟩
  | step answered rest =>
    obtain ⟨returns, later⟩ := after _ _ answered
    rw [returns] at rest
    cases rest
    exact ⟨later, .inr rfl⟩

theorem Settled.callsLead (leads : CallsLead guard call start final)
    (registered : guard.providers call.providerName = some provider)
    (settled : Settled guard call row start) : Settled guard call row final := by
  induction leads with
  | refl => exact settled
  | run _ isCall steps ih =>
    subst isCall
    exact (ih.steps registered steps).1

end Sequences

/-- However often the call of an effect is cut off and repeated, its action lands
at most once; and once the row is executed, every later call returns what it
says without asking the provider for anything. -/
theorem effect_at_most_once (guard : SideEffectGuard) (call : EffectCall) (start : Outside)
    (unclaimed : start.rows.get? (guard.idempotencyKey call) = none)
    (unlanded : ¬ start.HasLanded (guard.idempotencyKey call)) :
    (∀ final, CallsLead guard call start final →
      landings final (guard.idempotencyKey call) ≤ 1) ∧
    ∀ middle row final, CallsLead guard call start middle →
      middle.rows.get? (guard.idempotencyKey call) = some row → row.status = .executed →
      CallsLead guard call middle final →
        (∃ last, Program.Steps (reliably guard) final (guard.execute call) last
          (.done (replayOf guard call row))) ∧
        (∀ last residual, Program.Steps (reliably guard) final (guard.execute call) last residual →
          residual = guard.execute call ∨ residual = .done (replayOf guard call row)) ∧
        ∀ op, Program.Performs (reliably guard) final (guard.execute call) op →
          ∃ entry, op = .claim entry := by
  have accounted : LandsOnce guard call start := by
    constructor
    · rw [landings_eq_zero_iff.mpr unlanded]
      exact Nat.zero_le 1
    · exact fun landed => absurd landed unlanded
    · exact fun row stored => by cases unclaimed.symm.trans stored
    · exact fun row stored => by cases unclaimed.symm.trans stored
  refine ⟨fun final leads => (accounted_of_callsLead leads accounted).once, ?_⟩
  intro middle row final leads stored executed later
  obtain ⟨provider, registered⟩ := (accounted_of_callsLead leads accounted).registered row stored
  have settled : Settled guard call row final :=
    Settled.callsLead later registered ⟨row, stored, executed, rfl⟩
  obtain ⟨entry, next, program, after⟩ := settled_call registered settled
  refine ⟨?_, fun last residual steps => (settled.steps registered steps).2, ?_⟩
  · have answered : reliably guard final (.claim entry) (final.claimed entry)
        { final with rows := final.rows.set entry.idempotencyKey (final.claimed entry) } :=
      ⟨⟨rfl, rfl⟩, trivial⟩
    refine ⟨{ final with rows := final.rows.set entry.idempotencyKey (final.claimed entry) }, ?_⟩
    rw [program]
    refine .step answered ?_
    rw [(after _ _ answered).1]
    exact .refl _ _
  · rintro op ⟨last, rest, steps⟩
    rcases (settled.steps registered steps).2 with waiting | returned
    · rw [program] at waiting
      cases waiting
      exact ⟨entry, rfl⟩
    · cases returned

/-! ## A mail that is sent once -/

/-- A mail provider without idempotency keys. -/
def mailGuard : SideEffectGuard where
  providers := fun _ => some { supportsIdempotencyKey := fun _ => false }
  digest := fun instanceId stepId effectName _ => instanceId ++ ":" ++ stepId ++ ":" ++ effectName

def mailCall : EffectCall where
  instanceId := "instance"
  tenantId := "tenant"
  stepId := "notify"
  effectName := "mail"
  params := Dict.empty

/-- The mail has been sent and its row is still pending. -/
def mailLanded : Outside where
  rows := Dict.ofList [(mailGuard.idempotencyKey mailCall,
    { mailGuard.entry mailCall false with attempts := 1 })]
  landed := [mailGuard.request mailCall]

/-- The process dies after the mail has been sent. -/
theorem callsLead_mailLanded : CallsLead mailGuard mailCall {} mailLanded := by
  have sent : reliably mailGuard { mailLanded with landed := [] }
      (.execute mailCall.providerName (mailGuard.request mailCall)) (.ok { ok := true })
      mailLanded := by
    refine ⟨.inr rfl, ?_⟩
    rintro ⟨provider, registered, honours⟩
    cases registered
    cases honours
  exact .run .refl rfl (.step ⟨⟨rfl, rfl⟩, trivial⟩ (.step sent (.refl _ _)))

/-- The row of the mail after a second call. -/
def mailRow : OutboxEntry :=
  { mailGuard.entry mailCall false with attempts := 2, status := .executed,
                                        result := some Dict.empty }

def mailReconciled : Outside where
  rows := Dict.ofList [(mailGuard.idempotencyKey mailCall, mailRow)]
  landed := [mailGuard.request mailCall]

/-- The call is repeated: the provider knows the mail, and the row is marked. -/
theorem callsLead_mailReconciled : CallsLead mailGuard mailCall {} mailReconciled := by
  let claimed : Outside :=
    { mailLanded with rows := Dict.ofList [(mailGuard.idempotencyKey mailCall,
        { mailGuard.entry mailCall false with attempts := 2 })] }
  have known : reliably mailGuard claimed
      (.reconcile mailCall.providerName (mailGuard.request mailCall))
      (.ok (some { ok := true })) claimed :=
    ⟨rfl, fun _ => ⟨fun _ => ⟨_, List.mem_singleton_self _, rfl⟩, nofun⟩⟩
  have marked : reliably mailGuard claimed
      (.mark (mailGuard.idempotencyKey mailCall) (.executed Dict.empty none)) ()
      mailReconciled :=
    ⟨rfl, trivial⟩
  exact .run callsLead_mailLanded rfl
    (.step ⟨⟨rfl, rfl⟩, trivial⟩ (.step known (.step marked (.refl _ _))))

/-- The mail is sent by a call that is cut off, the second call reconciles, and a third
one returns what the row says. -/
theorem effect_at_most_once_mail :
    CallsLead mailGuard mailCall {} mailReconciled ∧
      landings mailReconciled (mailGuard.idempotencyKey mailCall) = 1 ∧
      landings mailReconciled (mailGuard.idempotencyKey mailCall) ≤ 1 ∧
      (∃ last, Program.Steps (reliably mailGuard) mailReconciled (mailGuard.execute mailCall) last
        (.done (replayOf mailGuard mailCall mailRow))) ∧
      ∀ op, Program.Performs (reliably mailGuard) mailReconciled (mailGuard.execute mailCall) op →
        ∃ entry, op = .claim entry := by
  have once := effect_at_most_once mailGuard mailCall {} rfl (by rintro ⟨_, ⟨⟩, _⟩)
  have settled := once.2 mailReconciled mailRow mailReconciled callsLead_mailReconciled rfl rfl
    .refl
  exact ⟨callsLead_mailReconciled, rfl, once.1 _ callsLead_mailReconciled, settled.1, settled.2.2⟩

end AgentForge.Guarantees
