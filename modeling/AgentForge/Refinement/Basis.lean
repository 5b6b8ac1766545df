import AgentForge.Engine.Petitions

/-!
# What appends are based on

Every writer appends to the instance it has in hand, at the version it has read
it at.  Drives keep to their discipline.  Operators check the status of what they
have read before they append.
-/

namespace AgentForge.Refinement

open Domain Events Library Engine Protocol Store
open Program

variable {payload : Payload} {target source : WorkflowStatus} {inst : WorkflowInstance}
  {row : EscalationRow} {actor : Actor} {definition : Option WorkflowDefinition}
  {reason instanceId tenantId : String} {α : Type} {drafts : List Event}
  {nextWakeupAt : Option Time} {payloads : List Payload}

/-! ## Kinds of events -/

/-- The event requeues the instance. -/
def revives : Payload → Prop
  | .workflowRequeued .. => True
  | _ => False

/-! ## Closing batches -/

/-- Events that neither end in the dead letters nor lead out of them. -/
def sparing (payload : Payload) : Prop :=
  buries payload = false ∧ ¬ revives payload

private theorem sparing_of_move (source : WorkflowStatus)
    (reason : Option String) (kept : target = .running ∨ target = .failed ∨ target = .rolledBack) :
    sparing (.instanceStatusChanged source target reason) := by
  rcases kept with rfl | rfl | rfl <;> exact ⟨rfl, id⟩

theorem sparing_of_mem_resolvePayloads {request : ResolveRequest}
    (member : payload ∈ resolvePayloads inst row request) : sparing payload :=
  forall_mem_resolvePayloads (fun _ _ _ _ => ⟨rfl, id⟩)
    (fun source _ reason kept => sparing_of_move source reason kept)
    (fun _ _ _ _ _ => ⟨rfl, id⟩) (fun _ _ _ => ⟨rfl, id⟩) payload member

theorem sparing_of_mem_expiryPayloads
    (member : payload ∈ expiryPayloads inst row) : sparing payload :=
  forall_mem_expiryPayloads (fun _ _ _ _ => ⟨rfl, id⟩)
    (fun source _ reason kept => sparing_of_move source reason kept)
    (fun _ _ _ => ⟨rfl, id⟩) payload member

/-! ## Grounds -/

/-- The world as far as a thread remembers it. -/
def inGrasp : Semantics Hand Op Op.Result :=
  fun hand op response next => Credible hand op response ∧ next = hand.after op response

/-- A move of the workflow that an operator asks for. -/
structure Moves (target : WorkflowStatus) (inst : WorkflowInstance) (payloads : List Payload) :
    Prop where
  elsewhere : inst.status ≠ target
  allowed : workflowTransitionAllowed inst.status target = true
  single : ∃ reason, payloads = [.instanceStatusChanged inst.status target reason]

/-- What an actor appends to the instance it has in hand. -/
def Appends : Actor → WorkflowInstance → List Payload → Prop
  | .drive _ _, inst, payloads => (∀ payload ∈ payloads, steers payload) ∧
      (workable inst.status ∨ ∀ payload ∈ payloads, recovers payload)
  | .pause _, inst, payloads => Moves .paused inst payloads
  | .resume _, inst, payloads => Moves .running inst payloads
  | .abort _, inst, payloads => Moves .failed inst payloads
  | .resolve request, inst, payloads =>
      inst.status = .waitingApproval ∧ ∃ row, payloads = resolvePayloads inst row request
  | .expireDue _ _, inst, payloads =>
      inst.status = .waitingApproval ∧ ∃ row, payloads = expiryPayloads inst row
  | .requeue dlqId requeuedBy, inst, payloads => inst.status = .deadLettered ∧
      ∃ stepId, payloads = [.workflowRequeued stepId requeuedBy (some dlqId)]

/-- Appends are based on the instance in hand, which is read with the definition
in hand; dead letters are those of a failed step of the instance in hand. -/
def Grounded (actor : Actor) (grasp : Hand) : Op → Prop
  | .getDefinition .. => grasp.held = none
  | .getInstance _ _ definition => definition = grasp.definition
  | .appendNew _ _ drafts expectedVersion _ _ =>
      ∃ inst, grasp.held = some inst ∧ expectedVersion = inst.version ∧
        Appends actor inst (drafts.map Event.payload)
  | .recordDeadLetter row => ∃ inst stepId reason, grasp.held = some inst ∧
      inst.status = .deadLettered ∧ (inst.stepOr stepId).status = .failed ∧
      row = deadLetterOf inst stepId reason
  | .resolveDeadLetter dlqId _ => ∃ requeuedBy, actor = .requeue dlqId requeuedBy
  | _ => True

/-- Operations have their grounds, and a due dead letter is recorded at once. -/
structure Based (actor : Actor) (grasp : Hand) (op : Op) : Prop where
  prompt : grasp.due = true → Op.files op
  grounded : Grounded actor grasp op

/-- Code whose operations are based on what is in hand, and that ends with no
dead letter due. -/
abbrev Bases {α : Type} (actor : Actor) (post : α → Hand → Prop) (code : Code α)
    (grasp : Hand) : Prop :=
  Safe inGrasp (Based actor) post (fun _ grasp => grasp.due = false) code grasp

theorem Based.of_settled {grasp : Hand} {op : Op} (settled : grasp.due = false)
    (grounded : Grounded actor grasp op) : Based actor grasp op :=
  ⟨fun due => absurd (settled.symm.trans due) Bool.false_ne_true, grounded⟩

/-! ## Drives -/

/-- The terms of a worker whose appends fold onto what it has in hand. -/
private def foldingTerms : Terms where
  charging := False
  undoing := False
  folding := True

private theorem based_of_disciplined {terms : Terms} {hand : Hand} {op : Op} {config : Config}
    {lease : Lease} (disciplined : Disciplined terms hand op) :
    Based (.drive config lease) hand op := by
  refine ⟨disciplined.prompt, ?_⟩
  have orderly := disciplined.orderly
  cases op with
  | getDefinition | recordDeadLetter => exact orderly
  | getInstance => exact orderly.2
  | appendNew =>
    obtain ⟨_, inst, held, _, version, appendable⟩ := orderly
    refine ⟨inst, held, version, List.forall_mem_map.mpr appendable.steers, ?_⟩
    exact appendable.worked.imp_right List.forall_mem_map.mpr
  | resolveDeadLetter => exact orderly.elim
  | _ => trivial

theorem bases_drive (config : Config) (lease : Lease) :
    Bases (.drive config lease) (fun _ hand => hand.due = false) (drive config lease) {} := by
  have simulates (current hand : Hand) (op : Op) (response : op.Result) (next : Hand)
      (same : current = hand) (_ : Disciplined foldingTerms hand op)
      (told : inGrasp current op response next) :
      ∃ hand', inHand foldingTerms (fun _ => True) hand op response hand' ∧ next = hand' := by
    subst same
    refine ⟨next, ⟨⟨?_, fun _ => told.1⟩, told.2⟩, rfl⟩
    cases op with
    | getDefinition => exact fun _ _ => trivial
    | appendNew => exact fun last events appended => (told.1 last events appended).1
    | _ => trivial
  refine (Safe.simulate simulates (disciplines_drive lease ⟨False.elim, False.elim⟩) rfl).mono
    ?_ ?_ ?_
  · rintro hand op ⟨_, rfl, disciplined⟩
    exact based_of_disciplined disciplined
  · rintro _ hand ⟨_, rfl, settled⟩
    exact settled.2
  · rintro _ hand ⟨_, rfl, raised⟩
    exact raised.2 trivial

/-! ## Operators -/

section Operators

variable {actor : Actor} {grasp : Hand} {post : α → Hand → Prop}

/-- Drafting leaves everything in hand. -/
private theorem bases_drafting {returns : α → Prop} {code : Code α} (settled : grasp.due = false)
    (yields : Yields Op.drafts returns code) :
    Bases actor (fun value next => returns value ∧ next = grasp) code grasp := by
  have kept (current : Hand) (op : Op) (same : current = grasp) (drafting : op.drafts) :
      Based actor current op ∧
        ∀ response next, inGrasp current op response next → next = grasp := by
    subst same
    cases op with
    | now | newId => exact ⟨.of_settled settled trivial, fun _ _ told => told.2⟩
    | _ => exact drafting.elim
  exact yields.safe kept (fun _ _ same => same ▸ settled) rfl

/-- Nothing has been read with a definition, and nothing is due. -/
structure Bare (grasp : Hand) : Prop where
  definition : grasp.definition = none
  settled : grasp.due = false

private theorem not_buries_of_moves (moves : Moves target inst payloads)
    (alive : target ≠ .deadLettered) : ∀ payload ∈ payloads, buries payload = false := by
  obtain ⟨reason, rfl⟩ := moves.single
  cases target with
  | deadLettered => exact absurd rfl alive
  | _ => simp [buries]

/-- An append of an operator: the instance is in hand, and nothing becomes due. -/
private theorem bases_operate {rest : Except Exn (Nat × List Event) → Code α} (bare : Bare grasp)
    (held : grasp.held = some inst) (drafted : drafts.map Event.payload = payloads)
    (appends : Appends actor inst payloads) (alive : ∀ payload ∈ payloads, buries payload = false)
    (next : ∀ response grasp', Bare grasp' → Bases actor post (rest response) grasp') :
    Bases actor post
      (Code.appendNew instanceId tenantId drafts inst.version false none >>= rest) grasp := by
  refine safe_call_bind.mpr
    ⟨.of_settled bare.settled ⟨inst, held, rfl, drafted ▸ appends⟩, ?_⟩
  rintro (failure | ⟨last, events⟩) _ ⟨credible, rfl⟩
  · exact next _ _ ⟨bare.definition, bare.settled⟩
  · refine next _ _ ⟨bare.definition, ?_⟩
    change (events.any fun event => buries event.payload) = false
    rw [(credible last events rfl).1, any_resequence, List.any_eq_false]
    intro draft member buried
    rw [alive _ (drafted ▸ List.mem_map_of_mem member)] at buried
    cases buried

/-- Read an instance without its definition. -/
private theorem bases_read {rest : Option WorkflowInstance → Code α} (bare : Bare grasp)
    (absent : ∀ grasp', Bare grasp' → Bases actor post (rest none) grasp')
    (present : ∀ inst grasp', Bare grasp' → grasp'.held = some inst →
      Bases actor post (rest (some inst)) grasp') :
    Bases actor post
      (do
        let response ← Code.getInstance instanceId tenantId none
        let stored ← lift response
        rest stored) grasp := by
  refine safe_call_bind.mpr ⟨.of_settled bare.settled bare.definition.symm, ?_⟩
  rintro (failure | _ | inst) _ ⟨_, rfl⟩
  · exact bare.settled
  · exact absent _ ⟨bare.definition, bare.settled⟩
  · exact present inst _ ⟨bare.definition, bare.settled⟩ rfl

theorem bases_controlTransition {instanceId tenantId reason : String} {target : WorkflowStatus}
    (appends : ∀ inst payloads, Moves target inst payloads → Appends actor inst payloads)
    (alive : target ≠ .deadLettered) (tries : Nat) (bare : Bare grasp) :
    Bases actor (fun _ grasp => grasp.due = false)
      (controlTransition instanceId tenantId target reason tries) grasp := by
  induction tries generalizing grasp with
  | zero => exact bare.settled
  | succ tries ih =>
    refine bases_read bare (fun _ bare => bare.settled) fun inst grasp bare held => ?_
    dsimp only
    split
    · exact bare.settled
    · split
      · exact bare.settled
      · next elsewhere =>
        split
        · exact bare.settled
        · next allowed =>
          refine Safe.bind (bases_drafting bare.settled (yields_call trivial)) ?_
          rintro eventId _ ⟨_, rfl⟩
          refine Safe.bind (bases_drafting bare.settled (yields_call trivial)) ?_
          rintro occurredAt _ ⟨_, rfl⟩
          have moves : Moves target inst
              [.instanceStatusChanged inst.status target (some reason)] :=
            ⟨elsewhere, Bool.eq_true_of_not_eq_false allowed, _, rfl⟩
          refine bases_operate bare held rfl (appends inst _ moves)
            (not_buries_of_moves moves alive) ?_
          rintro (failure | appended) grasp bare
          · dsimp only
            split
            · exact ih bare
            · exact bare.settled
          · exact bare.settled

/-- A waiting instance is in hand. -/
private structure Waiting (inst : WorkflowInstance) (grasp : Hand) : Prop where
  bare : Bare grasp
  held : grasp.held = some inst
  waits : inst.status = .waitingApproval

private theorem bases_loadEscalation {escalationId tenantId : String} (bare : Bare grasp) :
    Bases actor (fun loaded => Waiting loaded.2) (loadEscalation escalationId tenantId) grasp := by
  refine safe_call_bind.mpr ⟨.of_settled bare.settled trivial, ?_⟩
  rintro found _ ⟨_, rfl⟩
  split
  · exact bare.settled
  · split
    · exact bare.settled
    · refine bases_read ⟨bare.definition, bare.settled⟩ (fun _ bare => bare.settled)
        fun inst grasp bare held => ?_
      dsimp only
      split
      · exact bare.settled
      · next waits => exact ⟨bare, held, not_not.mp waits⟩

theorem bases_resolve (request : ResolveRequest) :
    Bases (.resolve request) (fun _ grasp => grasp.due = false) (resolve request) {} := by
  refine Safe.bind (bases_loadEscalation ⟨rfl, rfl⟩) ?_
  rintro ⟨row, inst⟩ grasp ⟨bare, held, waits⟩
  refine Safe.bind (bases_drafting bare.settled (yields_call trivial)) ?_
  rintro now _ ⟨_, rfl⟩
  refine Safe.bind (bases_drafting bare.settled (yields_draftsAt inst now _)) ?_
  rintro drafts _ ⟨drafted, rfl⟩
  refine bases_operate bare held drafted.1
    ⟨waits, row, rfl⟩
    (fun payload member => (sparing_of_mem_resolvePayloads member).1) fun response grasp bare => ?_
  exact safe_lift_bind (fun _ _ => bare.settled) fun _ _ => bare.settled

private theorem bases_expireRow {now sweep : Time} {limit : Nat} (bare : Bare grasp) :
    Bases (.expireDue sweep limit) (fun _ => Bare) (expireRow now row) grasp := by
  refine bases_read bare (fun _ bare => bare) fun inst grasp bare held => ?_
  dsimp only
  split
  · exact bare
  · next waits =>
    refine Safe.bind (bases_drafting bare.settled (yields_draftsAt inst now _)) ?_
    rintro drafts _ ⟨drafted, rfl⟩
    refine bases_operate bare held drafted.1
      ⟨not_not.mp waits, row, rfl⟩
      (fun payload member => (sparing_of_mem_expiryPayloads member).1) ?_
    rintro (failure | appended) grasp bare
    · dsimp only
      split
      · exact bare
      · exact bare.settled
    · exact bare

theorem bases_expireDue (now : Time) (limit : Nat) :
    Bases (.expireDue now limit) (fun _ grasp => grasp.due = false) (expireDue now limit) {} := by
  refine safe_call_bind.mpr ⟨.of_settled rfl trivial, ?_⟩
  rintro rows _ ⟨_, rfl⟩
  refine Safe.bind (safe_traverse (fun _ _ => Bare) ⟨rfl, rfl⟩ fun _ row _ _ _ _ bare => ?_)
    fun _ _ bare => bare.settled
  exact Safe.bind (bases_expireRow bare) fun _ _ bare => bare

theorem bases_requeue (dlqId : Nat) (tenantId requeuedBy : String) :
    Bases (.requeue dlqId requeuedBy) (fun _ grasp => grasp.due = false)
      (requeue dlqId tenantId requeuedBy) {} := by
  refine safe_call_bind.mpr ⟨.of_settled rfl trivial, ?_⟩
  rintro found _ ⟨_, rfl⟩
  split
  · rfl
  · split
    · rfl
    · refine bases_read ⟨rfl, rfl⟩ (fun _ bare => bare.settled) fun inst grasp bare held => ?_
      dsimp only
      split
      · exact bare.settled
      · next dead =>
        refine Safe.bind (bases_drafting bare.settled (yields_call trivial)) ?_
        rintro eventId _ ⟨_, rfl⟩
        refine Safe.bind (bases_drafting bare.settled (yields_call trivial)) ?_
        rintro occurredAt _ ⟨_, rfl⟩
        refine bases_operate bare held rfl ⟨not_not.mp dead, _, rfl⟩ (by simp [buries])
          fun response grasp bare => ?_
        refine safe_lift_bind (fun _ _ => ?_) fun _ _ => bare.settled
        refine safe_call_bind.mpr ⟨.of_settled bare.settled ⟨requeuedBy, rfl⟩, ?_⟩
        rintro _ _ ⟨_, rfl⟩
        exact bare.settled

end Operators

/-- Every actor bases its operations on what it has in hand. -/
theorem bases_program (setting : Setting) (actor : Actor) :
    Bases actor (fun _ grasp => grasp.due = false) (actor.program setting) {} := by
  cases actor with
  | drive config lease => exact Safe.bind (bases_drive config lease) fun _ _ settled => settled
  | pause operator =>
    exact Safe.bind (@bases_controlTransition (.pause operator) {} _ _ _ .paused
      (fun _ _ moves => moves) (by decide) _ ⟨rfl, rfl⟩) fun _ _ settled => settled
  | resume operator =>
    exact Safe.bind (@bases_controlTransition (.resume operator) {} _ _ _ .running
      (fun _ _ moves => moves) (by decide) _ ⟨rfl, rfl⟩) fun _ _ settled => settled
  | abort operator =>
    exact Safe.bind (@bases_controlTransition (.abort operator) {} _ _ _ .failed
      (fun _ _ moves => moves) (by decide) _ ⟨rfl, rfl⟩) fun _ _ settled => settled
  | resolve request => exact Safe.bind (bases_resolve request) fun _ _ settled => settled
  | expireDue now limit =>
    exact Safe.bind (bases_expireDue now limit) fun _ _ settled => settled
  | requeue dlqId requeuedBy =>
    exact Safe.bind (bases_requeue dlqId _ requeuedBy) fun _ _ settled => settled

end AgentForge.Refinement
