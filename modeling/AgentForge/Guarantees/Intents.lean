import AgentForge.Engine.Entries
import AgentForge.Engine.Petitions
import AgentForge.Guarantees.Rollbacks
import AgentForge.Library.History
import Mathlib.Data.List.Induction

/-!
# Intents and side effects in the log

The intent of a side effect and its execution enter the log together, when the
attempt has ended, and the intent is left out when the outbox already knew the
effect.  If a worker is lost after an execution, the next one finds the row
executed and logs the execution without its intent.  Where every drive begins
with the intents of all executed rows in the log, every execution comes after its
intent.
-/

namespace AgentForge.Guarantees

open Domain Effects Engine Events Library Store
open Program

/-! ## Entries of side effects -/

/-- The key of the intent that an event records. -/
def intentKey : Payload → Option String
  | .sideEffectIntentRecorded _ _ idempotencyKey _ _ => some idempotencyKey
  | _ => none

/-- Every execution comes after an intent with its key. -/
def IntentsFirst (payloads : List Payload) : Prop :=
  EachAt (fun before payload => ∀ key, executedEntry payload = some key →
    ∃ earlier ∈ before, intentKey earlier = some key) payloads

theorem IntentsFirst.concat {payloads : List Payload} {payload : Payload}
    (first : IntentsFirst payloads) (last : ∀ key, executedEntry payload = some key →
      ∃ earlier ∈ payloads, intentKey earlier = some key) : IntentsFirst (payloads ++ [payload]) :=
  eachAt_concat.mpr ⟨first, last⟩

/-- Entries without executions. -/
theorem IntentsFirst.append_of_none {payloads more : List Payload} (first : IntentsFirst payloads)
    (none : ∀ payload ∈ more, executedEntry payload = none) : IntentsFirst (payloads ++ more) := by
  induction more using List.reverseRecOn with
  | nil => rwa [List.append_nil]
  | append_singleton rest last ih =>
    rw [← List.append_assoc]
    refine (ih fun payload member => none payload (List.mem_append_left _ member)).concat ?_
    intro key executed
    rw [none last (List.mem_append_right _ (List.mem_singleton_self _))] at executed
    cases executed

/-! ## The references of the fold -/

section Refs

variable {definition : Option WorkflowDefinition} {inst next : WorkflowInstance} {event : Event}

end Refs

/-! ## Calls of the guard -/

/-- The row of a key is executed. -/
def IsExecuted (outside : Outside) (key : String) : Prop :=
  ∃ row, outside.rows.get? key = some row ∧ row.status = .executed

section Calls

variable {guard : SideEffectGuard} {call : EffectCall} {start outside : Outside}

/-- No row but that of the key has changed. -/
def Others (start : Outside) (key : String) (outside : Outside) : Prop :=
  ∀ other ≠ key, outside.rows.get? other = start.rows.get? other

/-- A claim returns an executed row only if it was executed. -/
theorem isExecuted_of_claimed {entry : OutboxEntry}
    (executed : (start.claimed entry).status = .executed) :
    IsExecuted start entry.idempotencyKey := by
  unfold Outside.claimed at executed
  split at executed
  · cases executed
  · next row found => exact ⟨row, found, executed⟩

/-- A mark changes the row of its key only. -/
theorem Others.marked {key : String} (others : Others start key outside) (marking : Marking) :
    Others start key { outside with rows := outside.marked key marking } := by
  intro other different
  dsimp only
  rw [get?_marked, if_neg different]
  exact others other different

/-- What a call leads to: the effect was known, or it is executed now. -/
def CallEnded (start : Outside) (key : String) (outcome : Outcome) (outside : Outside) : Prop :=
  outcome.idempotencyKey = key ∧ Others start key outside ∧
    (outcome.deduplicated = true → IsExecuted start key)

/-- The guard's code, which leaves the other rows alone. -/
abbrev Executing {α : Type} (start : Outside) (key : String) (post : α → Outside → Prop)
    (code : GuardCode α) (outside : Outside) : Prop :=
  Safe Outside.answers (fun outside _ => Others start key outside) post
    (fun _ outside => Others start key outside) code outside

theorem executing_carryOut {supportsKey resuming : Bool}
    (others : Others start (guard.idempotencyKey call) outside) :
    Executing start (guard.idempotencyKey call) (CallEnded start (guard.idempotencyKey call))
      (guard.carryOut call supportsKey resuming) outside := by
  have asked : Executing start (guard.idempotencyKey call)
      (fun _ outside => Others start (guard.idempotencyKey call) outside)
      (guard.ask call supportsKey resuming) outside := by
    refine ((yields_ask guard call supportsKey resuming).safe ?_ (fun _ _ others => others)
      others).imp fun _ _ ended => ended.2
    intro outside op others asks
    refine ⟨others, fun response next answered => ?_⟩
    cases op with
    | execute provider request => rcases answered with rfl | rfl <;> exact others
    | reconcile provider request =>
      obtain rfl : next = outside := answered
      exact others
    | _ => exact asks.elim
  refine asked.settle.bind ?_
  rintro (failure | result) outside others
  · dsimp only
    split
    · refine ⟨others, ?_⟩
      rintro _ _ rfl
      exact Others.marked others _
    · exact others
  · dsimp only
    split
    · refine ⟨others, ?_⟩
      rintro _ _ rfl
      exact ⟨rfl, Others.marked others _, nofun⟩
    · refine ⟨others, ?_⟩
      rintro _ _ rfl
      exact Others.marked others _

theorem executing_execute : Executing start (guard.idempotencyKey call)
    (CallEnded start (guard.idempotencyKey call)) (guard.execute call) start := by
  unfold SideEffectGuard.execute
  cases guard.provider call.providerName with
  | error failure => exact fun _ _ => rfl
  | ok provider =>
    refine ⟨fun _ _ => rfl, ?_⟩
    rintro row _ ⟨rfl, rfl⟩
    have others : Others start (guard.idempotencyKey call) { start with
        rows := start.rows.set (guard.idempotencyKey call) (start.claimed
          (guard.entry call (provider.supportsIdempotencyKey call.effectName))) } :=
      fun other different => Dict.get?_set_ne _ different _
    change Executing start _ _ (guard.afterClaim call _ _) _
    unfold SideEffectGuard.afterClaim
    cases status : (start.claimed (guard.entry call
        (provider.supportsIdempotencyKey call.effectName))).status with
    | executed => exact ⟨rfl, others, fun _ => isExecuted_of_claimed status⟩
    | compensated => exact others
    | pending | failed => exact executing_carryOut others

/-- What a call leaves behind, by what its caller is told. -/
theorem told_execute {residual : GuardCode Outcome} {response : Except Exn EffectOutcome}
    (ran : Steps Outside.answers start (guard.execute call) outside residual)
    (told : Told Outcome.report residual response) :
    Others start (guard.idempotencyKey call) outside ∧ ∀ outcome, response = .ok outcome →
      outcome.idempotencyKey = guard.idempotencyKey call ∧
        (outcome.deduplicated = true → IsExecuted start (guard.idempotencyKey call)) := by
  have safe := executing_execute.steps ran
  cases residual with
  | done ended =>
    refine ⟨safe.2.1, ?_⟩
    rintro outcome rfl
    rcases told with told | ⟨_, cut, _⟩
    · cases told
      exact ⟨safe.1, safe.2.2⟩
    · cases cut
  | raise failure =>
    refine ⟨safe, ?_⟩
    rintro outcome rfl
    rcases told with told | ⟨_, cut, _⟩
    · cases told
    · cases cut
  | perform op rest =>
    refine ⟨safe.1, ?_⟩
    rintro outcome rfl
    obtain ⟨_, cut, _⟩ := told
    cases cut

end Calls

/-! ## Rows and entries -/

/-- The key has its intent in the log, or an attempt that is still to be entered
has executed it. -/
def Backed (entries : List Payload) (done : List EffectOutcome) (key : String) : Prop :=
  (∃ payload ∈ entries, intentKey payload = some key) ∨
    ∃ outcome ∈ done, outcome.deduplicated = false ∧ outcome.idempotencyKey = key

/-- The law of the executed rows, while some side effects of the current wave are
still to be entered. -/
structure Covered (setting : Setting) (guard : SideEffectGuard) (done : List EffectOutcome)
    (site : Site) : Prop where
  first : IntentsFirst site.entries
  rows : ∀ stepId effectName params,
    IsExecuted site.outside (guard.digest setting.instanceId stepId effectName params) →
      Backed site.entries done (guard.digest setting.instanceId stepId effectName params)
  known : EachAt (fun before outcome => outcome.deduplicated = true →
    Backed site.entries before outcome.idempotencyKey) done

/-- A call of the guard that is answered with an error has not executed its row: no
attempt is cut off between the mark of a row and the return of the call. -/
def Acknowledged (setting : Setting) (guard : SideEffectGuard) (site : Site) :
    (op : Op) → op.Result → Site → Prop
  | .executeEffect stepId effectName params provider, response, next =>
      let key := guard.idempotencyKey (effectCall setting stepId effectName params provider)
      response.isOk = true ∨ (IsExecuted next.outside key → IsExecuted site.outside key)
  | _, _, _ => True

/-- Sites at which every execution is acknowledged. -/
def acknowledged (setting : Setting) (guard : SideEffectGuard) : Semantics Site Op Op.Result :=
  fun site op response next =>
    wired setting guard site op response next ∧ Acknowledged setting guard site op response next

section Rows

variable {setting : Setting} {guard : SideEffectGuard} {site next : Site}
  {done : List EffectOutcome} {stepId effectName provider : String} {outcome : EffectOutcome}
  {params : JsonDict}

theorem Backed.mono {entries more : List Payload} {before after : List EffectOutcome} {key : String}
    (backed : Backed entries before key) (grown : entries ⊆ more) (later : before ⊆ after) :
    Backed more after key := by
  rcases backed with ⟨payload, member, intended⟩ | ⟨outcome, member, executed⟩
  · exact .inl ⟨payload, grown member, intended⟩
  · exact .inr ⟨outcome, later member, executed⟩

variable (covered : Covered setting guard done site)

include covered

theorem Covered.grown {more : List Payload} (entries : next.entries = site.entries ++ more)
    (outside : next.outside = site.outside)
    (none : ∀ payload ∈ more, executedEntry payload = none) :
    Covered setting guard done next := by
  have kept : site.entries ⊆ next.entries := entries ▸ List.subset_append_left _ _
  refine ⟨entries ▸ covered.first.append_of_none none, ?_, ?_⟩
  · intro stepId effectName params executed
    rw [outside] at executed
    exact (covered.rows stepId effectName params executed).mono kept (List.Subset.refl _)
  · exact covered.known.imp fun before outcome backed deduplicated =>
      (backed deduplicated).mono kept (List.Subset.refl _)

/-- What a call of the guard adds. -/
theorem Covered.executed
    (answered : wired setting guard site (.executeEffect stepId effectName params provider) (.ok
      outcome) next) : Covered setting guard (done ++ [outcome]) next := by
  obtain ⟨journal, residual, ran, told⟩ := answered
  obtain ⟨others, ended⟩ := told_execute ran told
  obtain ⟨key, known⟩ := ended outcome rfl
  have same : next.entries = site.entries := congrArg (List.map Event.payload ∘ World.log) journal
  have old : done ⊆ done ++ [outcome] := List.subset_append_left _ _
  have backed (deduplicated : outcome.deduplicated = true) :
      Backed site.entries done outcome.idempotencyKey :=
    key ▸ covered.rows stepId effectName params (known deduplicated)
  refine ⟨same ▸ covered.first, ?_, eachAt_concat.mpr ⟨same ▸ covered.known, same ▸ backed⟩⟩
  intro otherStep otherName otherParams executed
  rw [same]
  by_cases own : guard.digest setting.instanceId otherStep otherName otherParams =
      outcome.idempotencyKey
  · rw [own]
    cases fresh : outcome.deduplicated with
    | true => exact (backed fresh).mono (List.Subset.refl _) old
    | false => exact .inr ⟨outcome, by simp, fresh, rfl⟩
  · have before : IsExecuted site.outside
        (guard.digest setting.instanceId otherStep otherName otherParams) := by
      obtain ⟨row, stored, status⟩ := executed
      exact ⟨row, others _ (key ▸ own) ▸ stored, status⟩
    exact (covered.rows _ _ _ before).mono (List.Subset.refl _) old

theorem Covered.refused {failure : Exn}
    (answered : acknowledged setting guard site
      (.executeEffect stepId effectName params provider) (.error failure) next) :
    Covered setting guard done next := by
  obtain ⟨⟨journal, residual, ran, told⟩, returned | unheard⟩ := answered
  · cases returned
  have others := (told_execute ran told).1
  have same : next.entries = site.entries := congrArg (List.map Event.payload ∘ World.log) journal
  refine ⟨same ▸ covered.first, ?_, same ▸ covered.known⟩
  intro otherStep otherName otherParams executed
  rw [same]
  refine covered.rows _ _ _ ?_
  by_cases own : guard.digest setting.instanceId otherStep otherName otherParams =
      guard.idempotencyKey (effectCall setting stepId effectName params provider)
  · rw [own] at executed ⊢
    exact unheard executed
  · obtain ⟨row, stored, status⟩ := executed
    exact ⟨row, others _ own ▸ stored, status⟩

/-! ## The batch of a wave -/

/-- Part of the batch that enters some side effects. -/
structure Emitted (entries : List Payload) (before : List EffectOutcome) (batch : List Payload) :
    Prop where
  first : IntentsFirst (entries ++ batch)
  intents : ∀ outcome ∈ before, outcome.deduplicated = false →
    ∃ payload ∈ batch, intentKey payload = some outcome.idempotencyKey

variable {entries batch : List Payload} {before : List EffectOutcome}

variable (emitted : Emitted entries before batch)

include emitted

omit covered

theorem Emitted.quiet (more : List Payload)
    (none : ∀ payload ∈ more, executedEntry payload = none) :
    Emitted entries before (batch ++ more) := by
  refine ⟨?_, fun outcome member fresh => ?_⟩
  · rw [← List.append_assoc]
    exact emitted.first.append_of_none none
  · obtain ⟨payload, listed, intended⟩ := emitted.intents outcome member fresh
    exact ⟨payload, List.mem_append_left _ listed, intended⟩

theorem Emitted.effect
    (known : outcome.deduplicated = true → Backed entries before outcome.idempotencyKey)
    (stepId : String) :
    Emitted entries (before ++ [outcome]) (batch ++ effectPayloads stepId outcome) := by
  unfold effectPayloads
  have old (more : List Payload) (other : EffectOutcome) (member : other ∈ before)
      (fresh : other.deduplicated = false) :
      ∃ payload ∈ batch ++ more, intentKey payload = some other.idempotencyKey := by
    obtain ⟨payload, listed, intended⟩ := emitted.intents other member fresh
    exact ⟨payload, List.mem_append_left _ listed, intended⟩
  cases deduplicated : outcome.deduplicated with
  | true =>
    simp only [if_true, List.nil_append]
    refine ⟨?_, fun other member fresh => ?_⟩
    · rw [← List.append_assoc]
      refine emitted.first.concat fun key executed => ?_
      cases executed
      rcases known deduplicated with ⟨payload, listed, intended⟩ | ⟨other, listed, fresh, same⟩
      · exact ⟨payload, List.mem_append_left _ listed, intended⟩
      · obtain ⟨payload, listed, intended⟩ := emitted.intents other listed fresh
        exact ⟨payload, List.mem_append_right _ listed, same ▸ intended⟩
    · rcases List.mem_append.mp member with earlier | last
      · exact old _ other earlier fresh
      · rw [List.mem_singleton.mp last, deduplicated] at fresh
        cases fresh
  | false =>
    simp only [Bool.false_eq_true, if_false]
    refine ⟨?_, fun other member fresh => ?_⟩
    · rw [← List.append_assoc, ← List.append_assoc]
      refine IntentsFirst.concat (emitted.first.append_of_none ?_) fun key executed => ?_
      · intro payload member
        rw [List.mem_singleton.mp member]
        rfl
      · cases executed
        exact ⟨_, List.mem_append_right _ (List.mem_singleton_self _), rfl⟩
    · rcases List.mem_append.mp member with earlier | last
      · exact old _ other earlier fresh
      · rw [List.mem_singleton.mp last]
        exact ⟨_, List.mem_append_right _ List.mem_cons_self, rfl⟩

theorem Emitted.effects {effects : List EffectOutcome}
    (known : EachAt (fun before outcome => outcome.deduplicated = true → Backed entries before
      outcome.idempotencyKey) (before ++ effects)) (stepId : String) :
    Emitted entries (before ++ effects) (batch ++ effects.flatMap (effectPayloads stepId)) := by
  induction effects generalizing before batch with
  | nil => simpa using emitted
  | cons outcome rest ih =>
    have more := ih (emitted.effect (known before outcome rest rfl) stepId)
      (by simpa using known)
    simpa using more

theorem Emitted.results {results : List AttemptResult}
    (known : EachAt (fun before outcome => outcome.deduplicated = true → Backed entries before
      outcome.idempotencyKey) (before ++ results.flatMap (·.outcome.effects))) :
    Emitted entries (before ++ results.flatMap (·.outcome.effects))
      (batch ++ results.flatMap resultPayloads) := by
  induction results generalizing before batch with
  | nil => simpa using emitted
  | cons result rest ih =>
    rw [List.flatMap_cons, ← List.append_assoc] at known
    have called : Emitted entries before
        (batch ++ result.outcome.llmRecordings.map
          (.llmCallRecorded result.stepId result.attempt)) := by
      refine emitted.quiet _ fun payload member => ?_
      obtain ⟨_, _, rfl⟩ := List.mem_map.mp member
      rfl
    have charged := called.quiet (result.outcome.charges.map fun charge =>
      .costCharged (some result.stepId) charge.amountUsd charge.model charge.tokensInput
        charge.tokensOutput) fun payload member => by
      obtain ⟨_, _, rfl⟩ := List.mem_map.mp member
      rfl
    have ended := (charged.effects known.of_append result.stepId).quiet
      [outcomePayload result] fun payload member => by
      rw [List.mem_singleton.mp member]
      unfold outcomePayload
      split <;> rfl
    have more := ih ended known
    simpa [resultPayloads] using more

omit emitted

/-- The batch that ends a wave enters its side effects, intents first. -/
theorem Covered.settled {results : List AttemptResult}
    (covered : Covered setting guard (results.flatMap (·.outcome.effects)) site)
    (entries : next.entries = site.entries ++ results.flatMap resultPayloads)
    (outside : next.outside = site.outside) : Covered setting guard [] next := by
  have initial : Emitted site.entries [] [] := ⟨by simpa using covered.first, nofun⟩
  have emitted : Emitted site.entries (results.flatMap (·.outcome.effects))
      (results.flatMap resultPayloads) := initial.results covered.known
  refine ⟨entries ▸ emitted.first, ?_, eachAt_nil _⟩
  intro stepId effectName params executed
  rw [outside] at executed
  rw [entries]
  rcases covered.rows stepId effectName params executed with ⟨payload, listed, intended⟩ |
    ⟨outcome, listed, fresh, same⟩
  · exact .inl ⟨payload, List.mem_append_left _ listed, intended⟩
  · obtain ⟨payload, listed, intended⟩ := emitted.intents outcome listed fresh
    exact .inl ⟨payload, List.mem_append_right _ listed, same ▸ intended⟩

end Rows

/-! ## Drives -/

/-- Appends keep intents first. -/
def Lawful (site : Site) : Op → Prop
  | .appendNew _ _ drafts _ _ _ => IntentsFirst (site.entries ++ drafts.map Event.payload)
  | _ => True

section Drives

variable {setting : Setting} {guard : SideEffectGuard} {config : Config}
  {definition : WorkflowDefinition} {inst : WorkflowInstance} {lease : Lease} {site next : Site}
  {done : List EffectOutcome} {ctx : StepContext} {op : Op} {response : op.Result}
  {state : ContextState}

theorem executedEntry_of_clerical {payload : Payload} (isClerical : clerical payload) :
    executedEntry payload = none := by
  cases payload with
  | sideEffectExecuted => exact isClerical.elim
  | _ => rfl

/-- What an answer adds to the log. -/
theorem entries_of_wired (answered : wired setting guard site op response next) :
    next.entries = site.entries ∨
      ∃ instanceId tenantId drafts expectedVersion underLease nextWakeupAt,
        op = .appendNew instanceId tenantId drafts expectedVersion underLease nextWakeupAt ∧
          next.entries = site.entries ++ drafts.map Event.payload := by
  obtain ⟨journal, outside⟩ := next
  unfold Site.entries
  dsimp only
  rcases journal_of_wired answered with rfl | answered
  · exact .inl rfl
  · cases logChange_of_answers answered with
    | same sameLog => exact .inl (by rw [sameLog])
    | @committed instanceId tenantId drafts expectedVersion underLease nextWakeupAt _ committed =>
      obtain ⟨_, _, _, _, _, rfl⟩ := commit_eq_ok committed
      refine .inr ⟨_, _, drafts, expectedVersion, _, _, rfl, ?_⟩
      rw [List.map_append, payload_resequence]

theorem Covered.atDesk (covered : Covered setting guard done site) (atDesk : op.atDesk)
    (answered : wired setting guard site op response next) : Covered setting guard done next := by
  have outside : next.outside = site.outside := by
    refine ((wired_of_not_guarded ?_).mp answered).2
    cases op with
    | executeEffect | compensateInstance => exact atDesk.elim
    | _ => rfl
  rcases entries_of_wired answered with same | ⟨_, _, drafts, _, _, _, rfl, grown⟩
  · exact covered.grown (same.trans (List.append_nil _).symm) outside nofun
  · refine covered.grown grown outside fun payload member => ?_
    obtain ⟨draft, listed, rfl⟩ := List.mem_map.mp member
    exact executedEntry_of_clerical (atDesk draft listed)

/-- Code whose appends keep intents first. -/
abbrev Orderly {α : Type} (setting : Setting) (guard : SideEffectGuard)
    (post : α → Site → Prop) (code : Code α) (site : Site) : Prop :=
  Safe (acknowledged setting guard) Lawful post (fun _ _ => True) code site

variable (covered : Covered setting guard [] site)

include covered

end Drives

/-! ## Runs -/

section Runs

variable {setting : Setting} {guard : SideEffectGuard} {start site : Site}

end Runs

end AgentForge.Guarantees
