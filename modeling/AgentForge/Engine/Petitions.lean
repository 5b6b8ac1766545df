import AgentForge.Engine.Discipline

/-!
# What operators append

Operators append without the guard, and only events of their own kinds: moves of
the instance or a step, closings of escalations, new budgets and requeues.
-/

namespace AgentForge.Engine

open Domain Events Library Store
open Program

/-- The kinds of events that operators append. -/
def petition : Payload → Prop
  | .instanceStatusChanged .. => True
  | .workflowRequeued .. => True
  | .workflowBudgetAdjusted .. => True
  | .stepStatusChanged .. => True
  | .escalationResolved .. => True
  | .escalationTimedOut .. => True
  | _ => False

/-- The operations of operators. -/
def Op.petitions : Op → Prop
  | .now => True
  | .newId => True
  | .getInstance .. => True
  | .appendNew _ _ drafts _ guarded _ =>
      guarded = false ∧ drafts ≠ [] ∧ ∀ draft ∈ drafts, petition draft.payload
  | .getDeadLetter _ => True
  | .resolveDeadLetter .. => True
  | .getEscalation _ => True
  | .dueEscalations .. => True
  | _ => False

/-- The alarm that an append sets. -/
def Op.alarm : Op → Option Time
  | .appendNew _ _ _ _ _ nextWakeupAt => nextWakeupAt
  | _ => none

/-- The operations of operators, none of which sets an alarm. -/
structure Op.Pleads (op : Op) : Prop where
  petitions : op.petitions
  unalarmed : op.alarm = none

theorem yields_controlTransition (instanceId tenantId : String) (target : WorkflowStatus)
    (reason : String) (tries : Nat) : Yields Op.Pleads (fun _ => True)
      (controlTransition instanceId tenantId target reason tries) := by
  induction tries with
  | zero => trivial
  | succ tries ih =>
    refine ⟨⟨trivial, rfl⟩, fun found _ _ => ?_⟩
    refine yields_lift_bind fun inst _ => ?_
    cases inst with
    | none => trivial
    | some inst =>
      dsimp only
      split
      · trivial
      · split
        · trivial
        · split
          · trivial
          · refine ⟨⟨trivial, rfl⟩, fun eventId _ _ => ⟨⟨trivial, rfl⟩, fun occurredAt _ _ => ?_⟩⟩
            refine ⟨⟨⟨rfl, List.cons_ne_nil _ _, ?_⟩, rfl⟩, ?_⟩
            · intro draft member
              rw [List.mem_singleton.mp member]
              trivial
            · rintro (failure | appended) _ _
              · change Yields _ _ (ite _ _ _)
                split
                · exact ih
                · trivial
              · trivial

/-! ## Batches that close an escalation -/

section Closing

variable {good : Payload → Prop} {inst : WorkflowInstance} {row : EscalationRow}
  (steps : ∀ stepId source target reason, good (.stepStatusChanged stepId source target reason))
  (moves : ∀ source target reason, target = .running ∨ target = .failed ∨ target = .rolledBack →
    good (.instanceStatusChanged source target reason))

include steps moves

/-- A resolution moves the step, and the workflow to one of three statuses. -/
theorem forall_mem_transitionPayloads {stepId actor : String} {resolution : Resolution} :
    ∀ payload ∈ transitionPayloads inst stepId resolution actor, good payload := by
  intro payload member
  unfold transitionPayloads at member
  dsimp only at member
  split at member
  · cases resolution <;> simp only [List.mem_cons, List.not_mem_nil, or_false] at member
    case approve | modify | skip =>
      rcases member with rfl | rfl
      · exact steps _ _ _ _
      · exact moves _ _ _ (.inl rfl)
    case abort =>
      subst member
      exact moves _ _ _ (.inr (.inl rfl))
  · rw [List.mem_singleton.mp member]
    cases resolution with
    | abort => exact moves _ _ _ (.inr (.inl rfl))
    | _ => exact moves _ _ _ (.inr (.inr rfl))

theorem forall_mem_resolvePayloads {request : ResolveRequest}
    (closes : ∀ escalationId stepId resolution resolvedBy context,
      good (.escalationResolved escalationId stepId resolution resolvedBy context))
    (budgets : ∀ limit adjustedBy reason, good (.workflowBudgetAdjusted limit adjustedBy reason)) :
    ∀ payload ∈ resolvePayloads inst row request, good payload := by
  intro payload member
  unfold resolvePayloads at member
  rcases List.mem_append.mp member with member | member
  · rcases List.mem_append.mp member with member | member
    · rw [List.mem_singleton.mp member]
      exact closes _ _ _ _ _
    · split at member
      · cases member
      · rw [List.mem_singleton.mp member]
        exact budgets _ _ _
  · exact forall_mem_transitionPayloads steps moves payload member

theorem forall_mem_expiryPayloads (expires : ∀ escalationId stepId resolution,
      good (.escalationTimedOut escalationId stepId resolution)) :
    ∀ payload ∈ expiryPayloads inst row, good payload := by
  intro payload member
  rcases List.mem_cons.mp member with rfl | moved
  · exact expires _ _ _
  · exact forall_mem_transitionPayloads steps moves payload moved

end Closing

/-- Drafting payloads at a given time. -/
theorem yields_draftsAt (inst : WorkflowInstance) (now : Time) (payloads : List Payload) :
    Yields Op.drafts (DraftsOf inst payloads) (Program.traverse (draftAt inst now) payloads) := by
  apply safe_traverse fun done events _ => DraftsOf inst done events
  · exact .nil inst
  · intro before payload after _ collected _ drafted
    refine Safe.bind (yields_call trivial) fun eventId _ _ => drafted.append ⟨rfl, ?_⟩
    intro event member
    rw [List.mem_singleton.mp member]
    rfl

private theorem pleads_append {inst : WorkflowInstance} {payloads : List Payload}
    {drafts : List Event} (drafted : DraftsOf inst payloads drafts) (nonempty : payloads ≠ [])
    (all : ∀ payload ∈ payloads, petition payload) {instanceId tenantId : String}
    {expectedVersion : Nat} :
    Op.Pleads (.appendNew instanceId tenantId drafts expectedVersion false none) := by
  refine ⟨⟨rfl, ?_, drafted.forall_mem all⟩, rfl⟩
  rintro rfl
  exact nonempty drafted.1.symm

theorem yields_resolve (request : ResolveRequest) :
    Yields Op.Pleads (fun _ => True) (resolve request) := by
  have loads : Yields Op.Pleads (fun _ => True)
      (loadEscalation request.escalationId request.tenantId) := by
    refine Safe.bind (yields_call ⟨trivial, rfl⟩) fun found _ _ => ?_
    split
    · trivial
    · split
      · trivial
      · refine ⟨⟨trivial, rfl⟩, fun found _ _ => ?_⟩
        refine yields_lift_bind fun inst _ => ?_
        cases inst with
        | none => trivial
        | some inst =>
          dsimp only
          split <;> trivial
  refine Safe.bind loads ?_
  rintro ⟨row, inst⟩ _ _
  refine Safe.bind (yields_call ⟨trivial, rfl⟩) fun now _ _ => ?_
  refine Safe.bind (yields_drafting ⟨trivial, rfl⟩ ⟨trivial, rfl⟩ (yields_draftsAt inst now _))
    fun drafts _ drafted => ?_
  have all : ∀ payload ∈ resolvePayloads inst row request, petition payload :=
    forall_mem_resolvePayloads (fun _ _ _ _ => trivial) (fun _ _ _ _ => trivial)
      (fun _ _ _ _ _ => trivial) fun _ _ _ => trivial
  refine ⟨pleads_append drafted (List.cons_ne_nil _ _) all, fun appended _ _ => ?_⟩
  exact yields_lift_bind fun _ _ => trivial

theorem yields_expireRow (now : Time) (row : EscalationRow) :
    Yields Op.Pleads (fun _ => True) (expireRow now row) := by
  refine ⟨⟨trivial, rfl⟩, fun found _ _ => ?_⟩
  refine yields_lift_bind fun inst _ => ?_
  cases inst with
  | none => trivial
  | some inst =>
    dsimp only
    split
    · trivial
    · refine Safe.bind (yields_drafting ⟨trivial, rfl⟩ ⟨trivial, rfl⟩
        (yields_draftsAt inst now _)) fun drafts _ drafted => ?_
      have all : ∀ payload ∈ expiryPayloads inst row, petition payload :=
        forall_mem_expiryPayloads (fun _ _ _ _ => trivial) (fun _ _ _ _ => trivial)
          fun _ _ _ => trivial
      refine ⟨pleads_append drafted (List.cons_ne_nil _ _) all, ?_⟩
      rintro (failure | appended) _ _
      · change Yields _ _ (ite _ _ _)
        split <;> trivial
      · trivial

theorem yields_expireDue (now : Time) (limit : Nat) :
    Yields Op.Pleads (fun _ => True) (expireDue now limit) := by
  refine Safe.bind (yields_call ⟨trivial, rfl⟩) fun rows _ _ => ?_
  refine Safe.bind (safe_traverse (fun _ _ _ => True) trivial fun _ row _ _ _ _ _ => ?_)
    fun _ _ _ => trivial
  exact Safe.bind (yields_expireRow now row) fun _ _ _ => trivial

theorem yields_requeue (dlqId : Nat) (tenantId requeuedBy : String) :
    Yields Op.Pleads (fun _ => True) (requeue dlqId tenantId requeuedBy) := by
  refine Safe.bind (yields_call ⟨trivial, rfl⟩) fun found _ _ => ?_
  split
  · trivial
  · split
    · trivial
    · refine ⟨⟨trivial, rfl⟩, fun found _ _ => ?_⟩
      refine yields_lift_bind fun inst _ => ?_
      cases inst with
      | none => trivial
      | some inst =>
        dsimp only
        split
        · trivial
        · refine ⟨⟨trivial, rfl⟩, fun eventId _ _ => ⟨⟨trivial, rfl⟩, fun occurredAt _ _ => ?_⟩⟩
          refine ⟨⟨⟨rfl, List.cons_ne_nil _ _, ?_⟩, rfl⟩, fun appended _ _ => ?_⟩
          · intro draft member
            rw [List.mem_singleton.mp member]
            trivial
          · exact yields_lift_bind fun _ _ => ⟨⟨trivial, rfl⟩, fun _ _ _ => trivial⟩

/-! ## All actors -/

/-- The program of an actor that is not a drive. -/
theorem pleads_program (setting : Setting) {actor : Actor}
    (operates : ∀ config lease, actor ≠ .drive config lease) :
    Yields Op.Pleads (fun _ => True) (actor.program setting) := by
  have silently {α : Type} {code : Code α} (yields : Yields Op.Pleads (fun _ => True) code) :
      Yields Op.Pleads (fun _ => True) (silent code) :=
    Safe.bind yields fun _ _ _ => trivial
  cases actor with
  | drive config lease => exact absurd rfl (operates config lease)
  | pause | resume | abort => exact silently (yields_controlTransition _ _ _ _ _)
  | resolve request => exact silently (yields_resolve request)
  | expireDue now limit => exact silently (yields_expireDue now limit)
  | requeue dlqId requeuedBy => exact silently (yields_requeue dlqId _ requeuedBy)

theorem yields_program (setting : Setting) {actor : Actor}
    (operates : ∀ config lease, actor ≠ .drive config lease) :
    Yields Op.petitions (fun _ => True) (actor.program setting) :=
  (pleads_program setting operates).mono (fun _ pleads => pleads.petitions) fun _ holds => holds

/-- What the appends of all actors have in common. -/
structure Written (drafts : List Event) : Prop where
  nonempty : drafts ≠ []
  recorded : (∃ draft ∈ drafts, recordsUndo draft.payload) →
    EndsRolledBack (drafts.map Event.payload)

def Op.writes : Op → Prop
  | .appendNew _ _ drafts _ _ _ => Written drafts
  | _ => True

theorem Op.writes_of_petitions {op : Op} (petitions : op.petitions) : op.writes := by
  cases op with
  | appendNew =>
    obtain ⟨_, nonempty, all⟩ := petitions
    refine ⟨nonempty, ?_⟩
    rintro ⟨draft, member, records⟩
    have isPetition := all draft member
    cases payload : draft.payload <;> rw [payload] at isPetition records <;>
      first | exact isPetition.elim | exact records.elim
  | _ => trivial

theorem Op.writes_of_disciplined {terms : Terms} {hand : Hand} {op : Op}
    (disciplined : Disciplined terms hand op) : op.writes := by
  cases op with
  | appendNew =>
    obtain ⟨_, inst, _, _, _, appendable⟩ := disciplined.orderly
    exact ⟨appendable.nonempty, appendable.recorded⟩
  | _ => trivial

/-- What every worker does. -/
def anyTerms : Terms where
  charging := False
  undoing := False
  folding := False

theorem met_anyTerms {known : WorkflowDefinition → Prop} (config : Config) :
    anyTerms.Met known config :=
  ⟨False.elim, False.elim⟩

/-- Drives, as seen in a world whose answers can be relied on. -/
theorem disciplined_drive {World : Type} {sem : Semantics World Op Op.Result}
    (believable : ∀ world op response next, sem world op response next →
      Believable (fun _ => True) op response) (config : Config) (lease : Lease) (world : World) :
    Safe sem (fun _ op => ∃ hand, Disciplined anyTerms hand op) (fun _ _ => True)
      (fun _ _ => True) (drive config lease) world := by
  have simulates (world : World) (hand : Hand) (op : Op) (response : op.Result) (next : World)
      (_ : True) (_ : Disciplined anyTerms hand op) (answered : sem world op response next) :
      ∃ hand', inHand anyTerms (fun _ => True) hand op response hand' ∧ True :=
    ⟨hand.after op response, ⟨⟨believable world op response next answered, False.elim⟩, rfl⟩,
      trivial⟩
  refine (Safe.simulate simulates (disciplines_drive lease (met_anyTerms config)) trivial).mono
    ?_ (fun _ _ _ => trivial) fun _ _ _ => trivial
  rintro world op ⟨hand, _, disciplined⟩
  exact ⟨hand, disciplined⟩

/-- What every actor appends. -/
theorem writes_program {World : Type} {sem : Semantics World Op Op.Result}
    (believable : ∀ world op response next, sem world op response next →
      Believable (fun _ => True) op response) (setting : Setting) (actor : Actor) (world : World) :
    Safe sem (fun _ op => op.writes) (fun _ _ => True) (fun _ _ => True)
      (actor.program setting) world := by
  by_cases isDrive : ∃ config lease, actor = .drive config lease
  · obtain ⟨config, lease, rfl⟩ := isDrive
    refine Safe.bind ((disciplined_drive believable config lease world).mono ?_
      (fun _ _ holds => holds) fun _ _ holds => holds) fun _ _ _ => trivial
    rintro world op ⟨hand, disciplined⟩
    exact Op.writes_of_disciplined disciplined
  · have operates : ∀ config lease, actor ≠ .drive config lease :=
      fun config lease same => isDrive ⟨config, lease, same⟩
    have kept (world : World) (op : Op) (_ : True) (petitions : op.petitions) :
        op.writes ∧ ∀ response next, sem world op response next → True :=
      ⟨Op.writes_of_petitions petitions, fun _ _ _ => trivial⟩
    exact ((yields_program setting operates).safe kept (fun _ _ _ => trivial) trivial).imp
      fun _ _ _ => trivial

end AgentForge.Engine
