import AgentForge.Refinement.Head
import AgentForge.Protocol.Writers

/-!
# The operators

The writers without a lease keep to the conduct as well.  They read the instance
without its definition, which tells them no less about its statuses.
-/

namespace AgentForge.Refinement

open Domain Events Library Store Engine Protocol

variable {setting : Setting} {care : Care} {world next : World} {inst : WorkflowInstance}
  {batch : List Event} {instanceId tenantId : String} {event : Event}

/-- A consistent world in which nothing is owed. -/
structure Clear (setting : Setting) (care : Care) (world : World) : Prop where
  consistent : Consistent setting world
  tidy : Tidy setting care world

theorem Clear.idle (clear : Clear setting care world) (idle : Idle setting world next) :
    Clear setting care next :=
  ⟨clear.consistent.idle idle, clear.tidy.idle idle⟩

/-! ## Reading and writing -/

section Bare

variable (folded : fold world.log none = .ok inst)

include folded

private theorem status_of_bare : (replay world.log).status = inst.status := by
  rw [← view_of_fold folded]
  rfl

private theorem steps_of_bare (stepId : String) :
    (replay world.log).steps stepId = .of (inst.stepOr stepId) := by
  rw [← view_of_fold folded]
  rfl

end Bare

private theorem keeps_getInstance {α : Type} {post : α → World → Prop}
    {rest : Option WorkflowInstance → Code α} (consistent : Consistent setting world)
    (absent : Keeps setting care post (rest none) world)
    (present : ∀ inst, (instanceId, tenantId) = setting.owner → fold world.log none = .ok inst →
      Keeps setting care post (rest (some inst)) world) :
    Keeps setting care post
      (do
        let response ← Code.getInstance instanceId tenantId none
        let stored ← lift response
        rest stored)
      world := by
  refine ⟨⟨consistent, trivial⟩, ?_⟩
  rintro response same ⟨rfl, rfl⟩
  refine keeps_lift_bind (fun _ => consistent) ?_
  intro stored readOk
  cases stored with
  | none => exact absent
  | some inst =>
    obtain ⟨owned, folded⟩ := read_eq_ok readOk
    exact present inst owned folded

/-- Drafting a list of payloads at a given time. -/
private theorem keeps_draftsAt (consistent : Consistent setting world) (inst : WorkflowInstance)
    (now : Time) (payloads : List Payload) : Keeps setting care
      (fun events next => Idle setting world next ∧ Drafted (rulesOf setting) now payloads events)
      (Program.traverse (draftAt inst now) payloads) world := by
  apply Program.safe_traverse fun done events next =>
    Idle setting world next ∧ Drafted (rulesOf setting) now done events
  · exact ⟨.refl setting world, .nil⟩
  · rintro before payload after _ collected middle ⟨idle, drafted⟩
    refine (keeps_newId (consistent.idle idle)).bind ?_
    rintro id final ⟨idle', _, _⟩
    refine ⟨idle.trans idle', drafted.append ⟨rfl, ?_⟩⟩
    intro _ event member
    rw [List.mem_singleton] at member
    subst member
    exact le_rfl

/-- Appending a batch without endings at the version that was read. -/
private theorem keeps_operate {drafts : List Event} (clear : Clear setting care world)
    (sound : Sound setting world (resequence world.log.length drafts))
    (noEndings : NoEndings (resequence world.log.length drafts)) : Keeps setting care
      (fun response next => Clear setting care next ∧
        ((∃ failure, response = .error failure ∧ next = world) ∨ ∃ value, response = .ok value ∧
            Appended world (resequence world.log.length drafts) next))
      (Code.appendNew instanceId tenantId drafts world.log.length false none) world := by
  refine (keeps_appendNew clear.consistent (fun _ => .of_tidy clear.tidy sound noEndings) false
    none).imp ?_
  rintro response next ⟨consistent, ⟨failure, rfl, rfl⟩ | ⟨version, rfl, _, appended⟩⟩
  · exact ⟨clear, .inl ⟨failure, rfl, rfl⟩⟩
  · refine ⟨⟨consistent, ?_⟩, .inr ⟨_, rfl, appended⟩⟩
    exact clear.tidy.append appended clear.consistent consistent sound.legal noEndings

/-! ## Instance control -/

private theorem sound_of_operator {source target : WorkflowStatus} {reason : Option String}
    (consistent : Consistent setting world) (operators : (rulesOf setting).operators)
    (found : (replay world.log).status = source)
    (allowed : workflowTransitionAllowed source target = true) (unfinished : target ≠ .completed)
    (payload : event.payload = .instanceStatusChanged source target reason) :
    Sound setting world [event] := by
  have legal : LegalBatch (rulesOf setting) (replay world.log) [event] := by
    refine ⟨?_, fun _ => trivial⟩
    rw [payload]
    exact .moved_from found allowed unfinished
  constructor
  case legal => exact legal
  case rest =>
    intro accepted
    refine consistent.rest.operated legal accepted operators ?_
    simp [payload, compensates]
  case issued => simp [payload]

theorem keeps_controlTransition {target : WorkflowStatus} {reason : String} {tries : Nat}
    (clear : Clear setting care world) (operators : (rulesOf setting).operators)
    (unfinished : target ≠ .completed) : Keeps setting care (fun _ next => Clear setting care next)
      (controlTransition setting.instanceId setting.tenantId target reason tries) world := by
  induction tries generalizing world with
  | zero => exact clear.consistent
  | succ tries ih =>
    refine keeps_getInstance clear.consistent clear.consistent ?_
    intro inst _ folded
    dsimp only
    split
    · exact clear.consistent
    split
    · exact clear
    split
    · exact clear.consistent
    · rename_i _ _ allowed
      refine (keeps_newId clear.consistent).bind ?_
      rintro id drawn ⟨idle, _, _⟩
      refine (keeps_now (clear.consistent.idle idle)).bind ?_
      rintro time middle ⟨idle', _, _⟩
      have middleClear := clear.idle (idle.trans idle')
      have log : middle.log = world.log := (idle.trans idle').log
      have version : inst.version = middle.log.length := by rw [version_of_fold folded, log]
      rw [version]
      refine (keeps_operate middleClear ?_ ?_).bind ?_
      · apply sound_of_operator middleClear.consistent operators _ _ unfinished rfl
        · rw [log, status_of_bare folded]
        · simpa using allowed
      · simp [NoEndings, resequence, ends]
      · rintro response next ⟨nextClear, ⟨failure, rfl, rfl⟩ | ⟨value, rfl, _⟩⟩
        · dsimp only
          split
          · exact ih nextClear
          · exact nextClear.consistent
        · exact nextClear

/-! ## Closing an escalation -/

/-- The payload closes an escalation of the step with this resolution. -/
inductive Closes (escalationId stepId : String) (resolution : Resolution) : Payload → Prop
  | resolved {resolvedBy : String} {modifiedContext : Option JsonDict} :
      Closes escalationId stepId resolution
        (.escalationResolved escalationId stepId resolution resolvedBy modifiedContext)
  | timedOut : resolution ≠ .modify →
      Closes escalationId stepId resolution (.escalationTimedOut escalationId stepId resolution)

/-- The payload changes the budget. -/
def adjusts : Payload → Bool
  | .workflowBudgetAdjusted _ _ _ => true
  | _ => false

namespace Closes

variable {escalationId stepId : String} {resolution : Resolution} {payload : Payload}
  (closes : Closes escalationId stepId resolution payload)

include closes

theorem plain : quiet payload = true ∧ ends payload = false := by
  cases closes <;> exact ⟨rfl, rfl⟩

theorem proceeds (stepLevel : stepId ≠ "") (goesOn : resolution ≠ .abort) :
    Protocol.proceeds payload escalationId := by
  cases closes <;> exact ⟨rfl, stepLevel, goesOn⟩

theorem approves (approving : resolution = .approve ∨ resolution = .modify) :
    Protocol.approves payload stepId := by
  cases closes with
  | resolved => exact ⟨rfl, approving⟩
  | timedOut unmodified => exact ⟨rfl, approving.resolve_right unmodified⟩

theorem advance (state : State) : state.advance payload = state.closeEscalation escalationId := by
  cases closes <;> rfl

omit closes in
theorem legal {rules : Rules} {state : State} {time : Time} {ref : EscalationRef}
    (closes : Closes ref.escalationId ref.stepId resolution payload)
    (member : ref ∈ state.escalations) (unresolved : ref.resolved = false)
    (waiting : state.status = .waitingApproval) : Legal rules state time payload := by
  cases closes with
  | resolved => exact .resolved member unresolved waiting
  | timedOut _ => exact .timedOut member unresolved waiting

end Closes

/-- An escalation of a state has been closed, and the budget adjusted. -/
structure Closed (state : State) (escalationId : String) (next : State) : Prop where
  status : next.status = state.status
  steps : next.steps = state.steps
  escalations : next.escalations = (state.closeEscalation escalationId).escalations
  log : ∀ event ∈ state.log, event ∈ next.log

section Closing

variable {rules : Rules} {state after : State} {event : Event} {escalationId stepId : String}
  {resolution : Resolution} {reason : Option String} {events : List Event} {time : Time}
  {ref : EscalationRef} {found : StepState}

theorem Closed.of_closes (closes : Closes escalationId stepId resolution event.payload) :
    Closed state escalationId (state.after event) := by
  unfold State.after
  rw [closes.advance]
  exact ⟨rfl, rfl, rfl, fun _ member => List.mem_append_left _ member⟩

theorem Closed.adjusted (closed : Closed state escalationId after)
    (adjusted : adjusts event.payload = true) : Closed state escalationId (after.after event) := by
  unfold State.after
  cases payload : event.payload with
  | workflowBudgetAdjusted =>
    exact ⟨closed.status, closed.steps, closed.escalations,
      fun other member => List.mem_append_left _ (closed.log other member)⟩
  | _ =>
    rw [payload] at adjusted
    cases adjusted

/-- Adjusting the budget is always legal. -/
theorem Closed.adjust (closed : Closed state escalationId after)
    (adjusted : ∀ event ∈ events, adjusts event.payload = true) :
    LegalBatch rules after events ∧ Closed state escalationId (after.afterAll events) := by
  induction events generalizing after with
  | nil => exact ⟨trivial, closed⟩
  | cons event rest ih =>
    have first := adjusted event List.mem_cons_self
    obtain ⟨legal, final⟩ := ih (closed.adjusted first)
      fun other member => adjusted other (List.mem_cons_of_mem _ member)
    refine ⟨⟨?_, fun _ => legal⟩, final⟩
    cases payload : event.payload with
    | workflowBudgetAdjusted => exact .budgetAdjusted
    | _ =>
      rw [payload] at first
      cases first

/-- The step of the escalation that was closed. -/
structure Freed (rules : Rules) (state : State) (stepId : String) : Prop where
  known : stepId ∈ rules.definition.stepIds
  touched : (state.steps stepId).status ≠ .pending
  held : (state.steps stepId).status = .waitingApproval ∨ Loose rules state stepId
  closed : ¬ state.Open stepId ∨ Loose rules state stepId

/-- Closing its only escalation frees a step. -/
theorem Closed.freed (closed : Closed state ref.escalationId after) (inv : Invariant rules state)
    (member : ref ∈ state.escalations) (unresolved : ref.resolved = false)
    (stepLevel : ref.stepId ≠ "") : Freed rules after ref.stepId := by
  have loose : Loose rules state ref.stepId → Loose rules after ref.stepId := by
    rintro ⟨requeues, event, eventMember, starts⟩
    exact ⟨requeues, event, closed.log event eventMember, starts⟩
  have held := inv.held ref member unresolved stepLevel
  have touched : (state.steps ref.stepId).status ≠ .pending := by
    rcases held with waiting | isLoose
    · rw [waiting]
      simp
    · exact inv.started _ isLoose.2
  constructor
  case known => exact inv.known _ touched
  case touched =>
    rw [closed.steps]
    exact touched
  case held =>
    rw [closed.steps]
    exact held.imp_right loose
  case closed =>
    by_cases isLoose : Loose rules state ref.stepId
    · exact .inr (loose isLoose)
    left
    rintro ⟨other, otherMember, sameStep, otherUnresolved⟩
    rw [closed.escalations] at otherMember
    obtain ⟨old, oldMember, rfl⟩ := List.mem_map.mp otherMember
    by_cases same : old.escalationId = ref.escalationId
    · rw [if_pos same] at otherUnresolved
      cases otherUnresolved
    · rw [if_neg same] at otherUnresolved sameStep
      rcases inv.single ref member old oldMember unresolved otherUnresolved sameStep.symm
        stepLevel with equal | isLoose'
      · exact same (by rw [equal])
      · exact isLoose isLoose'

private theorem Freed.released (freed : Freed rules after stepId)
    (view : after.steps stepId = .of found) (approved : after.Approved stepId) (time : Time) :
    Legal rules after time (.stepStatusChanged stepId found.status
      (if found.output.isSome then .completed else .ready) reason) := by
  have legal : Legal rules after time (.stepStatusChanged stepId (after.steps stepId).status
      (if (after.steps stepId).output.isSome then .completed else .ready) reason) :=
    .released freed.known freed.held freed.closed approved
  rwa [view] at legal

private theorem Freed.skipped (freed : Freed rules after stepId)
    (view : after.steps stepId = .of found) (time : Time) :
    Legal rules after time (.stepStatusChanged stepId found.status .skipped reason) := by
  have legal : Legal rules after time
      (.stepStatusChanged stepId (after.steps stepId).status .skipped reason) :=
    .skipped freed.known freed.held freed.closed
  rwa [view] at legal

/-- The workflow leaves its waiting state. -/
private theorem legal_leave {target : WorkflowStatus} (waiting : after.status = .waitingApproval)
    (allowed : workflowTransitionAllowed .waitingApproval target = true)
    (unfinished : target ≠ .completed)
    (drafted : Drafted rules time [.instanceStatusChanged .waitingApproval target reason] events) :
    LegalBatch rules after events ∧ (after.afterAll events).status = target ∧
      (after.afterAll events).escalations = after.escalations := by
  obtain ⟨event, rest, rfl, payload, _, restDrafted⟩ := drafted.eq_cons
  obtain rfl := restDrafted.eq_nil
  refine ⟨⟨?_, fun _ => trivial⟩, ?_⟩
  · rw [payload]
    exact .moved_from waiting allowed unfinished
  · change (after.advance event.payload).status = _ ∧ (after.advance event.payload).escalations = _
    rw [payload]
    exact ⟨rfl, rfl⟩

/-- A step is moved and the workflow goes on. -/
private theorem legal_goOn {source target : StepStatus} {reason reason' : Option String}
    (waiting : after.status = .waitingApproval)
    (legal : ∀ time, Legal rules after time (.stepStatusChanged stepId source target reason))
    (drafted : Drafted rules time [.stepStatusChanged stepId source target reason,
      .instanceStatusChanged .waitingApproval .running reason'] events) :
    LegalBatch rules after events ∧ (after.afterAll events).escalations = after.escalations := by
  obtain ⟨event, rest, rfl, payload, _, restDrafted⟩ := drafted.eq_cons
  have middle : (after.after event).status = after.status ∧
      (after.after event).escalations = after.escalations := by
    change (after.advance event.payload).status = _ ∧ (after.advance event.payload).escalations = _
    rw [payload]
    exact ⟨rfl, rfl⟩
  obtain ⟨restLegal, _, restEscalations⟩ :=
    legal_leave (middle.1.trans waiting) rfl (by simp) restDrafted
  refine ⟨⟨?_, fun _ => restLegal⟩, restEscalations.trans middle.2⟩
  rw [payload]
  exact legal _

/-- What closing an escalation leads to is legal. -/
private theorem legal_transition {actor : String} (inv : Invariant rules state)
    (member : ref ∈ state.escalations) (unresolved : ref.resolved = false)
    (closed : Closed state ref.escalationId after) (waiting : state.status = .waitingApproval)
    (status : inst.status = .waitingApproval)
    (steps : ∀ stepId, state.steps stepId = .of (inst.stepOr stepId))
    (approved : resolution = .approve ∨ resolution = .modify → after.Approved ref.stepId)
    (drafted : Drafted rules time (transitionPayloads inst ref.stepId resolution actor) events) :
    LegalBatch rules after events ∧ (after.afterAll events).escalations = after.escalations ∧
      (ref.stepId = "" ∨ resolution = .abort → parks (after.afterAll events).status = true) := by
  have afterWaiting := closed.status.trans waiting
  unfold transitionPayloads at drafted
  rw [status] at drafted
  by_cases workflowLevel : ref.stepId = ""
  · rw [if_pos workflowLevel] at drafted
    cases resolution with
    | abort =>
      obtain ⟨legal, final, same⟩ := legal_leave afterWaiting rfl (by simp) drafted
      exact ⟨legal, same, fun _ => by rw [final]; rfl⟩
    | _ =>
      obtain ⟨legal, final, same⟩ := legal_leave afterWaiting rfl (by simp) drafted
      exact ⟨legal, same, fun _ => by rw [final]; rfl⟩
  · rw [if_neg workflowLevel] at drafted
    have freed := closed.freed inv member unresolved workflowLevel
    have view := steps ref.stepId
    cases stored : inst.stepStates.get? ref.stepId with
    | none =>
      have touched := freed.touched
      rw [closed.steps, view, WorkflowInstance.stepOr, stored] at touched
      exact absurd rfl touched
    | some found =>
      rw [stored] at drafted
      rw [WorkflowInstance.stepOr, stored, ← closed.steps] at view
      change after.steps ref.stepId = .of found at view
      cases resolution with
      | abort =>
        obtain ⟨legal, final, same⟩ := legal_leave afterWaiting rfl (by simp) drafted
        exact ⟨legal, same, fun _ => by rw [final]; rfl⟩
      | skip =>
        obtain ⟨legal, same⟩ := legal_goOn afterWaiting (freed.skipped view) drafted
        exact ⟨legal, same, by simp [workflowLevel]⟩
      | _ =>
        obtain ⟨legal, same⟩ :=
          legal_goOn afterWaiting (freed.released view (approved (by simp))) drafted
        exact ⟨legal, same, by simp [workflowLevel]⟩

private theorem plain_of_mem_transition {stepId actor : String} :
    ∀ payload ∈ transitionPayloads inst stepId resolution actor,
      quiet payload = true ∧ ends payload = false := by
  intro payload listed
  unfold transitionPayloads at listed
  dsimp only at listed
  split at listed
  · cases resolution <;> simp at listed <;> rcases listed with rfl | rfl <;> exact ⟨rfl, rfl⟩
  · rw [List.mem_singleton] at listed
    subst listed
    exact ⟨rfl, rfl⟩

private theorem plain_of_mem_closing {escalationId stepId actor : String} {closing : Payload}
    {adjust : List Payload} (closes : Closes escalationId stepId resolution closing)
    (adjusted : ∀ payload ∈ adjust, adjusts payload = true) :
    ∀ payload ∈ closing :: (adjust ++ transitionPayloads inst stepId resolution actor),
      quiet payload = true ∧ ends payload = false := by
  intro payload listed
  rcases List.mem_cons.mp listed with rfl | later
  · exact closes.plain
  rcases List.mem_append.mp later with inAdjust | moved
  · have adjusting := adjusted payload inAdjust
    cases payload <;> first | exact ⟨rfl, rfl⟩ | cases adjusting
  · exact plain_of_mem_transition payload moved

end Closing

/-- Closing an escalation, adjusting the budget and moving on. -/
theorem sound_of_closing {escalationId stepId actor : String} {resolution : Resolution}
    {closing : Payload} {adjust : List Payload} {time : Time} {ref : EscalationRef}
    (consistent : Consistent setting world) (folded : fold world.log none = .ok inst)
    (waiting : inst.status = .waitingApproval) (member : ref ∈ (replay world.log).escalations)
    (refId : ref.escalationId = escalationId) (refStep : ref.stepId = stepId)
    (unresolved : ref.resolved = false) (closes : Closes escalationId stepId resolution closing)
    (adjusted : ∀ payload ∈ adjust, adjusts payload = true)
    (drafted : Drafted (rulesOf setting) time
      (closing :: (adjust ++ transitionPayloads inst stepId resolution actor)) batch) :
    Sound setting world batch ∧ NoEndings batch ∧ ((replay world.log).afterAll batch).escalations =
        ((replay world.log).closeEscalation escalationId).escalations := by
  subst refId refStep
  have status : (replay world.log).status = .waitingApproval :=
    (status_of_bare folded).trans waiting
  have plain := drafted.forall_mem (plain_of_mem_closing closes adjusted)
  obtain ⟨close, rest, rfl, closePayload, _, restDrafted⟩ := drafted.eq_cons
  rw [← closePayload] at closes
  obtain ⟨adjustEvents, moveEvents, rfl, adjustDrafted, moveDrafted⟩ := restDrafted.eq_append
  have first : Closed (replay world.log) ref.escalationId ((replay world.log).after close) :=
    .of_closes closes
  obtain ⟨adjustLegal, closed⟩ := first.adjust (adjustDrafted.forall_mem adjusted)
  have approved (approving : resolution = .approve ∨ resolution = .modify) :
      (((replay world.log).after close).afterAll adjustEvents).Approved ref.stepId := by
    refine ⟨close, ?_, closes.approves approving⟩
    rw [State.log_afterAll]
    exact List.mem_append_left _ (List.mem_append_right _ (List.mem_singleton_self _))
  obtain ⟨moveLegal, same, parked⟩ := legal_transition consistent.run.invariant member unresolved
    closed status waiting (steps_of_bare folded) approved moveDrafted
  have legal : LegalBatch (rulesOf setting) (replay world.log)
      (close :: (adjustEvents ++ moveEvents)) :=
    ⟨closes.legal member unresolved status,
      fun _ => legalBatch_append.mpr ⟨adjustLegal, fun _ => moveLegal⟩⟩
  have ended : (replay world.log).afterAll (close :: (adjustEvents ++ moveEvents)) =
      (((replay world.log).after close).afterAll adjustEvents).afterAll moveEvents :=
    State.afterAll_append _ _ _
  refine ⟨⟨legal, ?_, ?_⟩, fun event listed => (plain event listed).2, ?_⟩
  · intro accepted
    have compensatesNone : ∀ event ∈ close :: (adjustEvents ++ moveEvents),
        compensates event.payload = false := fun event listed =>
      (quiet_iff.mp (plain event listed).1).1
    by_cases stops : ref.stepId = "" ∨ resolution = .abort
    · apply consistent.rest.parking legal accepted compensatesNone
      rw [replay_append, ended]
      exact parked stops
    · rw [not_or] at stops
      exact consistent.rest.closing legal accepted rfl compensatesNone
        (fun event listed => (quiet_iff.mp (plain event listed).1).2) first.escalations
        (closes.proceeds stops.1 stops.2)
  · intro event listed escalation raised
    have none := (quiet_iff.mp (plain event listed).1).2
    rw [raised] at none
    cases none
  · rw [ended, same, closed.escalations]

/-- The row belongs to an unresolved escalation of the log. -/
def Unresolved (world : World) (row : EscalationRow) : Prop :=
  ∃ ref ∈ (replay world.log).escalations, ref.escalationId = row.escalationId ∧
    ref.stepId = row.stepId ∧ ref.resolved = false

private theorem keeps_loadEscalation {escalationId tenantId : String}
    (consistent : Consistent setting world) : Keeps setting care
      (fun loaded next => next = world ∧ loaded.1.escalationId = escalationId ∧
        Unresolved world loaded.1 ∧ fold world.log none = .ok loaded.2 ∧
        loaded.2.status = .waitingApproval) (loadEscalation escalationId tenantId) world := by
  refine ⟨⟨consistent, trivial⟩, ?_⟩
  rintro found same ⟨rfl, rfl⟩
  dsimp only [Program.bind]
  cases filtered : (same.escalations.get? escalationId).filter
      fun row => decide (row.tenantId = tenantId) with
  | none => exact consistent
  | some row =>
    obtain ⟨stored, _⟩ := Option.filter_eq_some_iff.mp filtered
    obtain ⟨sameId, _, ref, member, refId, refStep, pending⟩ := consistent.rows _ _ stored
    dsimp only
    split
    · exact consistent
    · rename_i isPending
      refine keeps_getInstance consistent consistent ?_
      intro inst _ folded
      dsimp only
      split
      · exact consistent
      · rename_i isWaiting
        refine ⟨rfl, sameId, ⟨ref, member, refId.trans sameId.symm, refStep, ?_⟩, folded, ?_⟩
        · exact pending (not_not.mp isPending)
        · exact not_not.mp isWaiting

variable (clear : Clear setting care world) {now : Time} {row : EscalationRow}

include clear

theorem keeps_resolve {request : ResolveRequest} :
    Keeps setting care (fun _ next => Clear setting care next) (resolve request) world := by
  refine (keeps_loadEscalation clear.consistent).bind ?_
  rintro ⟨row, inst⟩ loaded
    ⟨rfl, sameId, ⟨ref, member, refId, refStep, unresolved⟩, folded, waiting⟩
  refine (keeps_now clear.consistent).bind ?_
  rintro now timed ⟨timedIdle, _, _⟩
  refine (keeps_draftsAt (clear.consistent.idle timedIdle) inst now _).bind ?_
  rintro drafts middle ⟨draftIdle, drafted⟩
  have idle := timedIdle.trans draftIdle
  have middleClear := clear.idle idle
  have version : inst.version = middle.log.length := by rw [version_of_fold folded, idle.log]
  have numbered := drafted.resequence middle.log.length
  rw [← idle.log] at folded member
  obtain ⟨sound, noEndings, _⟩ := sound_of_closing middleClear.consistent folded waiting member
    (refId.trans sameId) refStep unresolved .resolved
    (by cases request.newBudgetUsd <;> simp [adjusts]) numbered
  rw [version]
  refine (keeps_operate middleClear sound noEndings).bind ?_
  rintro response next ⟨nextClear, ⟨failure, rfl, rfl⟩ | ⟨value, rfl, _⟩⟩
  · exact nextClear.consistent
  · exact nextClear

/-! ## Expiry -/

omit clear in
theorem expiryAction_ne_modify (autoAction : String) : expiryAction autoAction ≠ .modify := by
  unfold expiryAction
  split
  · simp
  · split <;> simp

omit clear in
/-- Closing one escalation leaves the others unresolved. -/
private theorem Unresolved.closeEscalation {escalationId : String}
    (unresolved : Unresolved world row) (different : row.escalationId ≠ escalationId)
    (closed : (replay next.log).escalations =
      ((replay world.log).closeEscalation escalationId).escalations) : Unresolved next row := by
  obtain ⟨ref, member, refId, refStep, isOpen⟩ := unresolved
  refine ⟨ref, ?_, refId, refStep, isOpen⟩
  rw [closed]
  exact List.mem_map.mpr ⟨ref, member, if_neg (refId ▸ different)⟩

private theorem keeps_expireRow (unresolved : Unresolved world row) : Keeps setting care
      (fun _ next => Clear setting care next ∧
        ∀ other, other.escalationId ≠ row.escalationId → Unresolved world other →
          Unresolved next other) (expireRow now row) world := by
  have skipped : Clear setting care world ∧ ∀ other : EscalationRow,
      other.escalationId ≠ row.escalationId → Unresolved world other → Unresolved world other :=
    ⟨clear, fun _ _ kept => kept⟩
  refine keeps_getInstance clear.consistent skipped ?_
  intro inst _ folded
  dsimp only
  split
  · exact skipped
  rename_i isWaiting
  refine (keeps_draftsAt clear.consistent inst now _).bind ?_
  rintro drafts middle ⟨idle, drafted⟩
  obtain ⟨ref, member, refId, refStep, isOpen⟩ := unresolved
  have middleClear := clear.idle idle
  have version : inst.version = middle.log.length := by rw [version_of_fold folded, idle.log]
  have numbered : Drafted (rulesOf setting) now
      (.escalationTimedOut row.escalationId row.stepId (expiryAction row.autoAction) ::
        ([] ++ transitionPayloads inst row.stepId (expiryAction row.autoAction) "auto"))
      (resequence middle.log.length drafts) := drafted.resequence middle.log.length
  rw [← idle.log] at folded member
  obtain ⟨sound, noEndings, closed⟩ := sound_of_closing middleClear.consistent folded
    (not_not.mp isWaiting) member refId refStep isOpen
    (.timedOut (expiryAction_ne_modify row.autoAction)) (by simp) numbered
  have kept {final : World} (same : final.log = middle.log) : ∀ other : EscalationRow,
      other.escalationId ≠ row.escalationId → Unresolved world other → Unresolved final other := by
    intro other _ still
    unfold Unresolved
    rw [same, idle.log]
    exact still
  rw [version]
  refine (keeps_operate middleClear sound noEndings).bind ?_
  rintro response next ⟨nextClear, ⟨failure, rfl, rfl⟩ | ⟨value, rfl, appended⟩⟩
  · dsimp only
    split
    · exact ⟨nextClear, kept rfl⟩
    · exact nextClear.consistent
  · refine ⟨nextClear, fun other different still => ?_⟩
    refine (kept rfl other different still).closeEscalation different ?_
    rw [appended.replay, closed]

omit clear in
private theorem dueRows_unresolved (consistent : Consistent setting world) (now : Time) :
    ((world.dueRows now).map EscalationRow.escalationId).Nodup ∧
      ∀ row ∈ world.dueRows now, Unresolved world row := by
  constructor
  · refine List.Nodup.sublist (List.filter_sublist.map _) ?_
    have keys : world.escalations.values.map EscalationRow.escalationId =
        world.escalations.keys := by
      unfold Dict.values Dict.keys
      rw [List.map_map]
      apply List.map_congr_left
      rintro ⟨key, row⟩ member
      exact (consistent.rows key row (Dict.get?_eq_some_iff.mpr member)).1
    rw [keys]
    exact world.escalations.nodup
  · intro row member
    obtain ⟨stored, due⟩ := List.mem_filter.mp member
    obtain ⟨key, found⟩ := Dict.mem_values_iff.mp stored
    obtain ⟨sameId, _, ref, refMember, refId, refStep, pending⟩ := consistent.rows key row found
    refine ⟨ref, refMember, refId.trans sameId.symm, refStep, pending ?_⟩
    simp only [Bool.and_eq_true, decide_eq_true_eq] at due
    exact due.1

/-- Rows with distinct identifiers expire one after the other. -/
private theorem keeps_expireRows {rows : List EscalationRow}
    (nodup : (rows.map EscalationRow.escalationId).Nodup)
    (unresolved : ∀ row ∈ rows, Unresolved world row) :
    Keeps setting care
      (fun _ next => Clear setting care next ∧ ∀ row ∈ rows,
        row.escalationId ∉ rows.map EscalationRow.escalationId → Unresolved next row)
      (Program.traverse
        (fun row => do
          let hasFired ← expireRow now row
          pure (if hasFired then some row.escalationId else none)) rows)
      world := by
  apply Program.safe_traverse fun done _ next => Clear setting care next ∧ ∀ row ∈ rows,
    row.escalationId ∉ List.map EscalationRow.escalationId done → Unresolved next row
  · exact ⟨clear, fun row member _ => unresolved row member⟩
  · rintro before row after split _ middle ⟨middleClear, remaining⟩
    have notBefore := not_mem_before_of_split nodup split
    refine (keeps_expireRow middleClear (remaining row (by simp [split]) notBefore)).bind ?_
    rintro hasFired next ⟨nextClear, kept⟩
    refine ⟨nextClear, ?_⟩
    intro other member notDone
    rw [List.map_append, List.mem_append, not_or] at notDone
    exact kept other (by simpa using notDone.2) (remaining other member notDone.1)

theorem keeps_expireDue {limit : Nat} :
    Keeps setting care (fun _ next => Clear setting care next) (expireDue now limit) world := by
  refine ⟨⟨clear.consistent, trivial⟩, ?_⟩
  rintro rows same ⟨⟨due, perm, _, rfl⟩, rfl⟩
  obtain ⟨nodup, unresolved⟩ := dueRows_unresolved clear.consistent now
  refine (keeps_expireRows clear ?_ ?_).bind fun _ _ kept => kept.1
  · exact List.Nodup.sublist ((List.take_sublist _ _).map _) ((perm.map _).nodup_iff.mpr nodup)
  · exact fun row member => unresolved row (perm.subset (List.mem_of_mem_take member))

/-! ## Dead letters -/

private theorem keeps_resolveDeadLetter {dlqId : Nat} {tenantId : String} :
    Keeps setting care (fun _ next => Clear setting care next)
      (Code.resolveDeadLetter dlqId tenantId) world := by
  refine ⟨⟨clear.consistent, trivial⟩, ?_⟩
  rintro _ next rfl
  refine ⟨{ clear.consistent with deadLetters := ?_ },
    ⟨clear.tidy.retries, clear.tidy.reviews, clear.tidy.calls⟩⟩
  intro row member
  obtain ⟨index, found⟩ := List.mem_iff_getElem?.mp member
  rw [List.getElem?_modify] at found
  cases old : world.deadLetters[index]? with
  | none => simp [old] at found
  | some before =>
    have facts := clear.consistent.deadLetters before (List.mem_of_getElem? old)
    rw [old] at found
    by_cases hit : dlqId = index
    · simp only [hit, if_true] at found
      cases found
      exact facts
    · simp only [hit, if_false] at found
      cases found
      exact facts

omit clear in
private theorem sound_of_requeue {stepId requeuedBy : String} {dlqId : Option Nat}
    (consistent : Consistent setting world) (requeues : (rulesOf setting).requeues)
    (known : stepId ∈ setting.definition.stepIds) (started : (replay world.log).Started stepId)
    (status : (replay world.log).status = .deadLettered)
    (payload : event.payload = .workflowRequeued (some stepId) requeuedBy dlqId) :
    Sound setting world [event] := by
  have drafted : Drafted (rulesOf setting) event.occurredAt [event.payload] [event] :=
    ⟨rfl, by simp⟩
  rw [payload] at drafted
  apply sound_of_quiet consistent _ drafted (by simp [quiet, compensates, raises])
  · intro _ parked
    rw [status] at parked
    cases parked
  · refine ⟨?_, fun _ => trivial⟩
    rw [payload]
    exact .requeued requeues known started status

theorem keeps_requeue {dlqId : Nat} {requeuedBy : String} (requeues : (rulesOf setting).requeues) :
    Keeps setting care (fun _ next => Clear setting care next)
      (requeue dlqId setting.tenantId requeuedBy) world := by
  refine ⟨⟨clear.consistent, trivial⟩, ?_⟩
  rintro found same ⟨rfl, rfl⟩
  dsimp only [Program.bind]
  cases filtered : (same.deadLetters[dlqId]?).filter
      fun row => decide (row.tenantId = setting.tenantId) with
  | none => exact clear.consistent
  | some row =>
    obtain ⟨stored, _⟩ := Option.filter_eq_some_iff.mp filtered
    obtain ⟨stepId, named, known, started⟩ :=
      clear.consistent.deadLetters row (List.mem_of_getElem? stored)
    dsimp only
    split
    · exact clear.consistent
    refine keeps_getInstance clear.consistent clear.consistent ?_
    intro inst _ folded
    dsimp only
    split
    · exact clear.consistent
    rename_i isDead
    refine (keeps_newId clear.consistent).bind ?_
    rintro id drawn ⟨idle, _, _⟩
    refine (keeps_now (clear.consistent.idle idle)).bind ?_
    rintro time middle ⟨idle', _, _⟩
    have middleClear := clear.idle (idle.trans idle')
    have log : middle.log = same.log := (idle.trans idle').log
    have version : inst.version = middle.log.length := by rw [version_of_fold folded, log]
    have status : (replay middle.log).status = .deadLettered := by
      rw [log, status_of_bare folded]
      exact not_not.mp isDead
    rw [← log] at started
    rw [version, named]
    refine (keeps_operate middleClear ?_ ?_).bind ?_
    · exact sound_of_requeue middleClear.consistent requeues known started status rfl
    · simp [NoEndings, resequence, ends]
    · rintro response next ⟨nextClear, ⟨failure, rfl, rfl⟩ | ⟨value, rfl, _⟩⟩
      · exact nextClear.consistent
      · exact (keeps_resolveDeadLetter nextClear).bind fun _ _ kept => kept

end AgentForge.Refinement
