import AgentForge.Protocol.Batches
import AgentForge.Refinement.Conduct

/-!
# Drafting and appending

Specifications of the writing half of the driver: drafts carry the payloads they
were made for, appending them extends the log and keeps the instance in memory
equal to the fold of the log.
-/

namespace AgentForge.Refinement

open Domain Events Library Engine Protocol

variable {setting : Setting} {care : Care} {world next : World} {inst : WorkflowInstance}
  {batch : List Event} {drafts : List Event} {instanceId tenantId : String}
  {payloads : List Payload}

/-! ## Drafts -/

theorem keeps_draftEvent (consistent : Consistent setting world) (inst : WorkflowInstance)
    (payload : Payload) : Keeps setting care (fun event next => Idle setting world next ∧
        Drafted (rulesOf setting) world.clock [payload] [event])
      (draftEvent inst payload) world := by
  refine (keeps_newId consistent).bind ?_
  rintro id middle ⟨idle, _, _⟩
  refine (keeps_now (consistent.idle idle)).bind ?_
  rintro time final ⟨idle', _, later⟩
  refine ⟨idle.trans idle', rfl, ?_⟩
  intro monotone event member
  rw [List.mem_singleton] at member
  subst member
  obtain ⟨clock, issued, rfl, earlier, _⟩ := idle
  exact (earlier monotone).trans (later monotone)

/-- Drafting a list of payloads. -/
theorem keeps_drafts (consistent : Consistent setting world) (inst : WorkflowInstance)
    (payloads : List Payload) : Keeps setting care
      (fun events next => Idle setting world next ∧
        Drafted (rulesOf setting) world.clock payloads events)
      (Program.traverse (draftEvent inst) payloads) world := by
  apply Program.safe_traverse fun done events next =>
    Idle setting world next ∧ Drafted (rulesOf setting) world.clock done events
  · exact ⟨Idle.refl setting world, .nil⟩
  · rintro before payload after _ collected middle ⟨idle, drafted⟩
    refine (keeps_draftEvent (consistent.idle idle) inst payload).imp ?_
    rintro event final ⟨idle', drafted'⟩
    exact ⟨idle.trans idle', drafted.append (drafted'.of_le idle.clock_le)⟩

/-! ## Appending -/

/-- The world after a batch has been appended. -/
def Appended (world : World) (batch : List Event) (next : World) : Prop :=
  ∃ rows, next = { world with log := world.log ++ batch, escalations := rows }

/-- The instance in memory is the fold of the log. -/
def Holds (setting : Setting) (world : World) (inst : WorkflowInstance) : Prop :=
  fold world.log (some setting.definition) = .ok inst

/-- What a reader gets is the fold of the log. -/
theorem read_eq_ok {definition : Option WorkflowDefinition}
    (found : world.read setting instanceId tenantId definition = .ok (some inst)) :
    (instanceId, tenantId) = setting.owner ∧ fold world.log definition = .ok inst := by
  unfold World.read at found
  by_cases owned : (instanceId, tenantId) = setting.owner
  · rw [if_pos owned] at found
    cases folded : fold world.log definition with
    | error failure =>
      rw [folded] at found
      cases found
    | ok value =>
      rw [folded] at found
      cases found
      exact ⟨owned, rfl⟩
  · rw [if_neg owned] at found
    cases found

theorem Holds.owner (holds : Holds setting world inst) (consistent : Consistent setting world) :
    (inst.instanceId, inst.tenantId) = setting.owner := by
  obtain ⟨other, folded, owned⟩ := consistent.folds
  unfold Holds at holds
  rw [folded] at holds
  cases holds
  exact owned

theorem Holds.version (holds : Holds setting world inst) : inst.version = world.log.length :=
  version_of_fold holds

theorem Holds.view (holds : Holds setting world inst) :
    Protocol.view world.log inst = replay world.log :=
  view_of_fold holds

theorem Holds.idle (holds : Holds setting world inst) (idle : Idle setting world next) :
    Holds setting next inst := by
  obtain ⟨clock, issued, rfl, _, _⟩ := idle
  exact holds

/-- The journal takes a batch or leaves everything as it was. -/
theorem keeps_appendNew {expectedVersion : Nat} (consistent : Consistent setting world)
    (proper : expectedVersion = world.log.length →
      Proper setting care world (resequence expectedVersion drafts)) (guarded : Bool)
    (wakeup : Option Time) : Keeps setting care (fun response next => Consistent setting next ∧
        ((∃ failure, response = .error failure ∧ next = world) ∨
          ∃ version, response = .ok (version, resequence expectedVersion drafts) ∧
            expectedVersion = world.log.length ∧
            Appended world (resequence expectedVersion drafts) next))
      (Code.appendNew instanceId tenantId drafts expectedVersion guarded wakeup) world := by
  refine ⟨⟨consistent, proper⟩, ?_⟩
  rintro response next (⟨failure, rfl, rfl⟩ | ⟨committed, rfl⟩)
  · exact ⟨consistent, .inl ⟨failure, rfl, rfl⟩⟩
  · obtain ⟨_, current, _, _, _, extended⟩ := commit_eq_ok committed
    refine ⟨consistent.commit committed (proper current).sound, .inr ⟨_, rfl, current, ?_⟩⟩
    exact ⟨_, extended⟩

/-- Appending drafts under the lease guard. -/
theorem keeps_append (holds : Holds setting world inst) (consistent : Consistent setting world)
    (proper : drafts ≠ [] → Proper setting care world (resequence world.log.length drafts))
    (wakeup : Option Time) : Keeps setting care
      (fun result next => Holds setting next result ∧ Consistent setting next ∧
        Appended world (resequence world.log.length drafts) next)
      (append setting.definition inst drafts wakeup) world := by
  unfold append
  by_cases empty : drafts = []
  · subst empty
    refine ⟨holds, consistent, world.escalations, ?_⟩
    simp [resequence]
  · rw [if_neg (by simpa using empty), holds.version]
    refine (keeps_appendNew consistent (fun _ => proper empty) true wakeup).bind ?_
    rintro response next ⟨nextConsistent, ⟨failure, rfl, rfl⟩ | ⟨version, rfl, _, appended⟩⟩
    · exact nextConsistent
    · apply keeps_lift fun _ => nextConsistent
      intro result folded
      refine ⟨?_, nextConsistent, appended⟩
      obtain ⟨rows, rfl⟩ := appended
      unfold foldOnto at folded
      cases tail : fold (resequence world.log.length drafts) (some setting.definition)
        (some inst) with
      | error failure =>
        rw [tail] at folded
        cases folded
      | ok after =>
        rw [tail] at folded
        cases folded
        exact (fold_append holds).mpr tail

/-! ## What the instance in memory says about the log -/

namespace Holds

variable (holds : Holds setting world inst)

include holds

theorem status : (replay world.log).status = inst.status := by
  rw [← holds.view]
  rfl

theorem steps (stepId : String) : (replay world.log).steps stepId = .of (inst.stepOr stepId) := by
  rw [← holds.view]
  rfl

theorem escalations : (replay world.log).escalations = inst.escalations := by
  rw [← holds.view]
  rfl

theorem remaining : (replay world.log).remaining = inst.remainingBudgetUsd := by
  rw [← holds.view]
  rfl

theorem open_iff (stepId : String) :
    (replay world.log).Open stepId ↔ stepId ∈ openEscalations inst := by
  unfold State.Open openEscalations
  rw [holds.escalations]
  simp only [List.mem_map, List.mem_filter, Bool.not_eq_true']
  constructor
  · rintro ⟨ref, member, same, unresolved⟩
    exact ⟨ref, ⟨member, unresolved⟩, same⟩
  · rintro ⟨ref, ⟨member, unresolved⟩, same⟩
    exact ⟨ref, member, same, unresolved⟩

theorem granted_iff (stepId : String) :
    (replay world.log).Granted stepId ↔ approvalGranted inst stepId = true := by
  unfold State.Granted approvalGranted
  rw [holds.escalations]
  simp [List.any_eq_true]

/-- Running steps are among the stored ones. -/
theorem runningCount_le :
    (replay world.log).runningCount setting.definition.stepIds ≤ inst.countSteps .running := by
  unfold State.runningCount WorkflowInstance.countSteps Dict.values
  rw [List.countP_map, List.countP_eq_length_filter, List.countP_eq_length_filter]
  refine le_trans (List.Subperm.length_le (List.subperm_of_subset
    (setting.definition.nodup_stepIds.filter _) ?_)) (List.length_map (f := Prod.fst)).le
  intro stepId member
  have running : (inst.stepOr stepId).status = .running := by
    have found := of_decide_eq_true (List.mem_filter.mp member).2
    rwa [holds.steps] at found
  unfold WorkflowInstance.stepOr at running
  cases stored : inst.stepStates.get? stepId with
  | none => simp [stored] at running
  | some state =>
    rw [stored] at running
    refine List.mem_map.mpr ⟨(stepId, state), List.mem_filter.mpr ⟨?_, ?_⟩, rfl⟩
    · exact Dict.get?_eq_some_iff.mp stored
    · simpa using running

end Holds

/-! ## Proper batches -/

/-- A batch without endings charges nothing. -/
theorem NoEndings.billed (noEndings : NoEndings batch) (world : World) : Billed world batch := by
  intro stepId
  rw [List.countP_eq_zero.mpr]
  · exact Nat.zero_le _
  · intro event member
    rw [not_bills_of_not_ends (noEndings event member)]
    exact Bool.false_ne_true

theorem Proper.of_tidy (tidy : Tidy setting care world) (sound : Sound setting world batch)
    (noEndings : NoEndings batch) : Proper setting care world batch where
  sound := sound
  held := .inl ⟨tidy, noEndings⟩
  reports := fun cares record member now => absurd ⟨record, member, now⟩ (tidy.calls cares)
  billed := fun _ => noEndings.billed world

/-- Payloads that neither compensate a step nor raise an escalation. -/
def quiet (payload : Payload) : Bool :=
  !compensates payload && !raises payload

theorem quiet_iff {payload : Payload} :
    quiet payload = true ↔ compensates payload = false ∧ raises payload = false := by
  simp [quiet]

/-- A legal batch of quiet events, unless it moves a parked workflow. -/
theorem sound_of_quiet {time : Time} (consistent : Consistent setting world)
    (legal : LegalBatch (rulesOf setting) (replay world.log) batch)
    (drafted : Drafted (rulesOf setting) time payloads batch)
    (allQuiet : ∀ payload ∈ payloads, quiet payload = true)
    (still : (replay world.log).AcceptsAll batch → parks (replay world.log).status = true →
      ((replay world.log).afterAll batch).status = (replay world.log).status) :
    Sound setting world batch := by
  have eachQuiet : ∀ event ∈ batch, quiet event.payload = true :=
    drafted.forall_mem allQuiet
  have raisesNone : ∀ event ∈ batch, raises event.payload = false := fun event member =>
    (quiet_iff.mp (eachQuiet event member)).2
  constructor
  case legal => exact legal
  case rest =>
    intro accepted
    apply consistent.rest.plain legal accepted _ raisesNone
    · rw [replay_append]
      exact still accepted
    · exact fun event member => (quiet_iff.mp (eachQuiet event member)).1
  case issued =>
    intro event member escalation raised
    have none := raisesNone event member
    rw [raised] at none
    cases none

/-- A legal batch of quiet events for a running workflow. -/
theorem sound_of_running {time : Time} (consistent : Consistent setting world)
    (runs : (replay world.log).status = .running)
    (legal : LegalBatch (rulesOf setting) (replay world.log) batch)
    (drafted : Drafted (rulesOf setting) time payloads batch)
    (allQuiet : ∀ payload ∈ payloads, quiet payload = true) : Sound setting world batch := by
  apply sound_of_quiet consistent legal drafted allQuiet
  intro _ parked
  rw [runs] at parked
  cases parked

/-- What the fold has taken was accepted event by event. -/
theorem Holds.acceptsAll {result : WorkflowInstance} (holds : Holds setting world inst)
    (appended : Appended world batch next) (held : Holds setting next result) :
    (replay world.log).AcceptsAll batch := by
  obtain ⟨rows, rfl⟩ := appended
  have tail : (Protocol.view world.log inst).AcceptsAll batch ∧ _ :=
    view_of_fold_batch ((fold_append holds).mp held)
  rw [holds.view] at tail
  exact tail.1

theorem Appended.replay (appended : Appended world batch next) :
    Protocol.replay next.log = (Protocol.replay world.log).afterAll batch := by
  obtain ⟨rows, rfl⟩ := appended
  exact replay_append world.log batch

/-- A batch that is accepted event by event folds, with or without the
definition. -/
theorem Holds.exists_fold (holds : Holds setting world inst)
    (accepted : (Protocol.replay world.log).AcceptsAll (resequence world.log.length drafts)) :
    (∃ result, fold (world.log ++ resequence world.log.length drafts)
        (some setting.definition) = .ok result) ∧
      ∃ bare, fold (world.log ++ resequence world.log.length drafts) = .ok bare := by
  rw [← holds.view] at accepted
  have sequences : (resequence world.log.length drafts).map Event.sequence =
      List.range' (1 + inst.version) (resequence world.log.length drafts).length := by
    rw [sequence_resequence, holds.version]
  obtain ⟨result, tail⟩ := fold_of_acceptsAll sequences accepted
  have full := (fold_append holds).mpr tail
  obtain ⟨bare, bareOk, _⟩ := (fold_agree (some setting.definition) _).ok_left full
  exact ⟨⟨result, full⟩, bare, bareOk⟩

/-! ## Raising escalations -/

/-- Fresh identifiers have been drawn for the escalations. -/
structure Drawn (world next : World) (escalations : List Escalation) : Prop where
  nodup : (escalations.map Escalation.escalationId).Nodup
  fresh : ∀ escalation ∈ escalations, escalation.escalationId ∉ world.issued
  issued : ∀ escalation ∈ escalations, escalation.escalationId ∈ next.issued

namespace Drawn

variable {final : World} {escalations : List Escalation} {escalation : Escalation}

theorem nil (world next : World) : Drawn world next [] :=
  ⟨List.nodup_nil, List.forall_mem_nil _,
    List.forall_mem_nil _⟩

theorem concat (drawn : Drawn world next escalations) (before : Idle setting world next)
    (after : Idle setting next final) (fresh : escalation.escalationId ∉ next.issued)
    (issued : escalation.escalationId ∈ final.issued) :
    Drawn world final (escalations ++ [escalation]) := by
  constructor
  · rw [List.map_append, List.nodup_append]
    refine ⟨drawn.nodup, List.nodup_singleton _, ?_⟩
    intro id listed other otherListed same
    rw [List.map_singleton, List.mem_singleton] at otherListed
    obtain ⟨earlier, member, rfl⟩ := List.mem_map.mp listed
    exact fresh (otherListed ▸ same ▸ drawn.issued earlier member)
  · exact forall_mem_concat drawn.fresh fun known => fresh (before.issued_subset _ known)
  · refine forall_mem_concat (fun other old => ?_) issued
    exact after.issued_subset _ (drawn.issued other old)

theorem isFresh (drawn : Drawn world next escalations) (consistent : Consistent setting world)
    (member : escalation ∈ escalations) : (replay world.log).Fresh escalation.escalationId :=
  consistent.fresh (drawn.fresh escalation member)

end Drawn

/-- Raising one escalation under a fresh identifier. -/
theorem keeps_raise (consistent : Consistent setting world) (inst : WorkflowInstance)
    (make : String → Escalation) :
    Keeps setting care
      (fun event next => ∃ id, Idle setting world next ∧
        Drafted (rulesOf setting) world.clock [.escalationRaised (make id)] [event] ∧
        id ∉ world.issued ∧ id ∈ next.issued)
      (do
        let id ← Code.newId
        draftEvent inst (.escalationRaised (make id)))
      world := by
  refine (keeps_newId consistent).bind ?_
  rintro id middle ⟨idle, fresh, issued⟩
  refine (keeps_draftEvent (consistent.idle idle) inst _).imp ?_
  rintro event final ⟨idle', drafted⟩
  exact ⟨id, idle.trans idle', drafted.of_le idle.clock_le, fresh, idle'.issued_subset _ issued⟩

/-- Events that raise escalations, followed by the event that parks the
workflow. -/
theorem sound_of_parking {raised : List Event} {park : Event} {reason : Option String}
    (consistent : Consistent setting world)
    (legal : LegalBatch (rulesOf setting) (replay world.log) raised)
    (runs : (replay world.log).AcceptsAll raised →
      ((replay world.log).afterAll raised).status = .running)
    (parks : park.payload = .instanceStatusChanged .running .waitingApproval reason)
    (plain : ∀ event ∈ raised, compensates event.payload = false)
    (issued : ∀ event ∈ raised, ∀ escalation, event.payload = .escalationRaised escalation →
      escalation.escalationId ∈ world.issued) : Sound setting world (raised ++ [park]) := by
  have legalAll : LegalBatch (rulesOf setting) (replay world.log) (raised ++ [park]) := by
    refine legalBatch_append.mpr ⟨legal, fun accepted => ⟨?_, fun _ => trivial⟩⟩
    rw [parks]
    exact .moved_from (runs accepted) rfl (by simp)
  constructor
  case legal => exact legalAll
  case rest =>
    intro accepted
    apply consistent.rest.parking legalAll accepted
    · exact forall_mem_concat plain (by rw [parks]; rfl)
    · rw [replay_append, State.afterAll_append]
      change Protocol.parks (State.advance _ park.payload).status = true
      rw [parks]
      rfl
  case issued =>
    refine forall_mem_concat issued fun escalation payload => ?_
    rw [parks] at payload
    cases payload

end AgentForge.Refinement
