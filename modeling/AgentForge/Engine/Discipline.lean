import AgentForge.Engine.Footprint
import AgentForge.Engine.PlanLaws
import AgentForge.Engine.World
import AgentForge.Protocol.State
import Mathlib.Algebra.BigOperators.Group.List.Basic

/-!
# The discipline of drives

What a worker has in hand while it drives an instance: the definition and the
instance it has read, folded with its own events since, the charges it has
appended without entering them into the ledger, whether the side effects have
been undone, and whether a dead letter is still to be recorded.  The discipline
says which operations a drive performs with what it has in hand, whatever its
surroundings answer: it appends under the guard, at the version in hand, events
of its own kind; it enters what it owes before it appends again; it rolls back
after undoing the side effects; it records a due dead letter at once.  It works
on an instance that is pending, retrying or running; any other it leaves alone,
apart from the steps that a dead worker left running.
-/

namespace AgentForge.Engine

open Domain Events Library Protocol
open Program

variable {payloads : List Payload} {drafts : List Event} {payload : Payload} {op : Op} {α : Type}
  {nextWakeupAt : Option Time} {config : Config} {lease : Lease} {known : WorkflowDefinition → Prop}
  {response : op.Result}

/-! ## Kinds of events -/

/-- The amount an event charges. -/
def charge : Payload → Rat
  | .costCharged _ amountUsd _ _ _ => amountUsd
  | _ => 0

def charged (events : List Event) : Rat :=
  (events.map fun event => charge event.payload).sum

theorem charged_eq_sum (events : List Event) :
    charged events = ((events.map Event.payload).map charge).sum := by
  rw [List.map_map]
  rfl

theorem charged_resequence (version : Nat) (drafts : List Event) :
    charged (resequence version drafts) = charged drafts := by
  rw [charged_eq_sum, payload_resequence, ← charged_eq_sum]

theorem charged_of_draftsOf {inst : WorkflowInstance} (drafted : DraftsOf inst payloads drafts) :
    charged drafts = (payloads.map charge).sum := by
  rw [charged_eq_sum, drafted.1]

/-- Drives neither create nor requeue instances, nor close escalations. -/
def driven : Payload → Prop
  | .instanceCreated .. => False
  | .workflowRequeued .. => False
  | .escalationResolved .. => False
  | .escalationTimedOut .. => False
  | _ => True

/-- The statuses in which a drive works on an instance. -/
def workable : WorkflowStatus → Prop
  | .pending | .retrying | .running => True
  | _ => False

/-- The event makes a step runnable again that a dead worker left running. -/
def recovers : Payload → Prop
  | .stepStatusChanged _ .running .ready _ => True
  | _ => False

/-- Drives make steps ready that are pending or were left running, and change
the status of a step in no other way but by running it; they skip none. -/
def steers : Payload → Prop
  | .stepStatusChanged _ source target _ =>
      target = .ready ∧ (source = .pending ∨ source = .running)
  | .stepSkipped .. => False
  | payload => driven payload

/-- The event leaves the status of the workflow as it is. -/
def leavesStatus : Payload → Prop
  | .instanceStatusChanged .. => False
  | .instanceCompleted _ => False
  | .instanceFailed .. => False
  | .workflowRequeued .. => False
  | _ => True

/-- The event moves the workflow to `DEAD_LETTERED`. -/
def buries : Payload → Bool
  | .instanceStatusChanged _ .deadLettered _ => true
  | _ => false

def rollsBack : Payload → Prop
  | .instanceStatusChanged _ .rolledBack _ => True
  | _ => False

/-- The event records that something has been undone. -/
def recordsUndo : Payload → Prop
  | .sideEffectCompensated .. => True
  | .stepCompensated .. => True
  | _ => False

/-- The batch ends with the move to `ROLLED_BACK`. -/
def EndsRolledBack (payloads : List Payload) : Prop :=
  ∃ before last, payloads = before ++ [last] ∧ rollsBack last

/-- Events of a drive that charge nothing and have nothing to do with a
rollback. -/
def plain : Payload → Prop
  | .instanceStatusChanged _ target _ => target ≠ .rolledBack
  | .costCharged .. => False
  | .sideEffectCompensated .. => False
  | .stepCompensated .. => False
  | payload => steers payload

theorem driven_of_steers (steering : steers payload) : driven payload := by
  cases payload with
  | stepStatusChanged => trivial
  | stepSkipped => exact steering.elim
  | _ => exact steering

theorem leavesStatus_of_recovers (recovering : recovers payload) : leavesStatus payload := by
  cases payload with
  | stepStatusChanged => trivial
  | _ => exact recovering.elim

theorem not_buries_of_leavesStatus (leaves : leavesStatus payload) : buries payload = false := by
  cases payload with
  | instanceStatusChanged => exact leaves.elim
  | _ => rfl

theorem not_rollsBack_of_leavesStatus (leaves : leavesStatus payload) : ¬ rollsBack payload := by
  cases payload with
  | instanceStatusChanged => exact leaves.elim
  | _ => exact id

variable (isPlain : plain payload)

include isPlain

theorem steers_of_plain : steers payload := by
  cases payload with
  | instanceStatusChanged => trivial
  | costCharged | sideEffectCompensated | stepCompensated => exact isPlain.elim
  | _ => exact isPlain

theorem not_recordsUndo_of_plain : ¬ recordsUndo payload := by
  cases payload with
  | sideEffectCompensated | stepCompensated => exact isPlain.elim
  | _ => exact id

theorem charge_of_plain : charge payload = 0 := by
  cases payload with
  | costCharged => exact isPlain.elim
  | _ => rfl

theorem not_rollsBack_of_plain : ¬ rollsBack payload := by
  cases payload with
  | instanceStatusChanged source target reason =>
    cases target with
    | rolledBack => exact absurd rfl isPlain
    | _ => exact id
  | _ => exact id

omit isPlain

theorem plain_of_launches (launching : launches payload) : plain payload := by
  unfold launches at launching
  split at launching
  · exact ⟨rfl, .inl rfl⟩
  · trivial
  · exact launching.elim

/-- Events that prepare steps or raise escalations. -/
def announces : Payload → Prop
  | .escalationRaised _ => True
  | payload => launches payload

theorem plain_of_announces (announcing : announces payload) : plain payload := by
  cases payload with
  | escalationRaised => trivial
  | _ => exact plain_of_launches announcing

theorem leavesStatus_of_announces (announcing : announces payload) : leavesStatus payload := by
  cases payload with
  | escalationRaised | stepStatusChanged | stepStarted => trivial
  | _ => exact announcing.elim

theorem announces_of_launches (launching : launches payload) : announces payload := by
  cases payload with
  | stepStatusChanged | stepStarted => trivial
  | _ => exact launching.elim

/-! ## Status of folded batches -/

section Status

variable {definition : Option WorkflowDefinition} {base inst : WorkflowInstance} {event : Event}
  {state : State} {log events : List Event}

theorem status_after_of_leavesStatus (leaves : leavesStatus event.payload) :
    (state.after event).status = state.status := by
  change (state.advance event.payload).status = state.status
  cases payload : event.payload with
  | instanceStatusChanged | instanceCompleted | instanceFailed | workflowRequeued =>
    rw [payload] at leaves
    exact leaves.elim
  | escalationRaised escalation => exact state.status_raiseEscalation escalation
  | _ => rfl

theorem status_afterAll_of_leavesStatus (leaves : ∀ event ∈ events, leavesStatus event.payload) :
    (state.afterAll events).status = state.status := by
  induction events generalizing state with
  | nil => rfl
  | cons event rest ih =>
    have later := @ih (state.after event) fun other member =>
      leaves other (List.mem_cons_of_mem _ member)
    exact later.trans (status_after_of_leavesStatus (leaves event List.mem_cons_self))

theorem status_of_fold (folded : fold log definition = .ok inst) :
    inst.status = (replay log).status :=
  congrArg State.status (view_of_fold folded)

private theorem status_of_fold_batch (folded : fold events definition (some base) = .ok inst)
    (leaves : ∀ event ∈ events, leavesStatus event.payload) : inst.status = base.status := by
  have viewed := congrArg State.status (@view_of_fold_batch definition [] _ _ _ folded).2
  exact viewed.trans (status_afterAll_of_leavesStatus leaves)

/-- What a transition of the workflow does to the instance. -/
private theorem view_of_fold_moved {source target : WorkflowStatus} {reason : Option String}
    (folded : fold [event] definition (some base) = .ok inst)
    (payload : event.payload = .instanceStatusChanged source target reason) :
    inst.status = target ∧ ∀ stepId, (inst.stepOr stepId).status = (base.stepOr stepId).status := by
  have viewed : view ([] ++ [event]) inst = (view [] base).after event :=
    (view_of_fold_batch folded).2
  simp only [State.after, payload] at viewed
  exact ⟨congrArg State.status viewed, fun stepId =>
    congrArg (fun state => (state.steps stepId).status) viewed⟩

end Status

/-! ## What is in hand -/

structure Hand where
  definition : Option WorkflowDefinition := none
  held : Option WorkflowInstance := none
  /-- Charges of the last append that are not in the ledger yet. -/
  owed : Rat := 0
  /-- The side effects have been undone, and nothing has been done since. -/
  undone : Bool := false
  /-- The dead letter of an appended move is still to be recorded. -/
  due : Bool := false

/-- The instance in hand after an append. -/
def Hand.foldNew (hand : Hand) (events : List Event) : Option WorkflowInstance :=
  hand.held.bind fun inst => hand.definition.bind fun definition =>
    (foldOnto definition inst events).toOption

def Hand.after (hand : Hand) : (op : Op) → op.Result → Hand
  | .getDefinition .., definition => { hand with definition := definition }
  | .getInstance .., .ok inst => { hand with held := inst }
  | .appendNew .., .ok (_, events) =>
      { hand with held := hand.foldNew events, owed := charged events, undone := false
                  due := events.any fun event => buries event.payload }
  | .appendNew .., .error _ => { hand with held := none }
  | .recordSpend _ amountUsd _, _ => { hand with owed := hand.owed - amountUsd }
  | .executeEffect .., _ => { hand with undone := false }
  | .compensateInstance .., .ok _ => { hand with undone := true }
  | .compensateInstance .., .error _ => { hand with undone := false }
  | .recordDeadLetter _, _ => { hand with due := false }
  | _, _ => hand

/-- What can be relied on: definitions are of a known kind, and appended events
are the drafts with their numbers. -/
def Believable (known : WorkflowDefinition → Prop) : (op : Op) → op.Result → Prop
  | .getDefinition .., found => ∀ definition, found = some definition → known definition
  | .appendNew _ _ drafts expectedVersion _ _, result =>
      ∀ last events, result = .ok (last, events) → events = resequence expectedVersion drafts
  | _, _ => True

theorem Believable.anyDefinition (believable : Believable known op response) :
    Believable (fun _ => True) op response := by
  cases op with
  | getDefinition => exact fun _ _ => trivial
  | _ => exact believable

/-- The answers of a world can be relied on. -/
theorem believable_of_answers {setting : Setting} {world next : World}
    (answered : answers setting world op response next) :
    Believable (· = setting.definition) op response := by
  cases op with
  | getDefinition =>
    rintro definition rfl
    rcases answered.1 with absent | found
    · cases absent
    · exact Option.some.inj found
  | appendNew =>
    rintro last events rfl
    rcases answered with ⟨_, failed, _⟩ | ⟨_, appended⟩
    · cases failed
    · cases appended
      rfl
  | _ => trivial

/-- Appended events are the drafts with their numbers, and they fold onto the
instance in hand. -/
def Credible (hand : Hand) : (op : Op) → op.Result → Prop
  | .appendNew _ _ drafts expectedVersion _ _, result =>
      ∀ last events, result = .ok (last, events) →
        events = resequence expectedVersion drafts ∧
          ∀ inst definition, hand.held = some inst → hand.definition = some definition →
            ∃ next, fold events (some definition) (some inst) = .ok next
  | _, _ => True

/-- Which parts of the discipline apply to all the workers concerned. -/
structure Terms where
  /-- Charges are entered into the ledger. -/
  charging : Prop
  /-- Rollbacks undo the side effects, and handlers perform none. -/
  undoing : Prop
  /-- What is appended folds onto what is in hand. -/
  folding : Prop

/-- What a worker is told. -/
structure Trusted (terms : Terms) (known : WorkflowDefinition → Prop) (hand : Hand) (op : Op)
    (response : op.Result) : Prop where
  believable : Believable known op response
  credible : terms.folding → Credible hand op response

/-- The world as far as it is in hand. -/
def inHand (terms : Terms) (known : WorkflowDefinition → Prop) : Semantics Hand Op Op.Result :=
  fun hand op response next => Trusted terms known hand op response ∧ next = hand.after op response

/-- Nothing is owed, and no dead letter is due. -/
def Settled (terms : Terms) (hand : Hand) : Prop :=
  (terms.charging → hand.owed ≤ 0) ∧ hand.due = false

/-- Drafts that may be appended. -/
structure Appendable (terms : Terms) (hand : Hand) (inst : WorkflowInstance)
    (drafts : List Event) : Prop where
  nonempty : drafts ≠ []
  owned : ∀ draft ∈ drafts, draft.owner = inst.owner
  steers : ∀ draft ∈ drafts, steers draft.payload
  worked : workable inst.status ∨ ∀ draft ∈ drafts, recovers draft.payload
  settled : Settled terms hand
  undone : terms.undoing → (∃ draft ∈ drafts, rollsBack draft.payload) → hand.undone = true
  recorded : (∃ draft ∈ drafts, recordsUndo draft.payload) →
    EndsRolledBack (drafts.map Event.payload)

/-- The operations of a drive. -/
def Orderly (terms : Terms) (hand : Hand) : Op → Prop
  | .getDefinition .. => hand.held = none
  | .getInstance _ _ definition => hand.held = none ∧ definition = hand.definition
  | .appendNew instanceId tenantId drafts expectedVersion guarded _ =>
      guarded = true ∧ ∃ inst, hand.held = some inst ∧ (instanceId, tenantId) = inst.owner ∧
        expectedVersion = inst.version ∧ Appendable terms hand inst drafts
  | .recordSpend tenantId amountUsd _ =>
      (∃ inst, hand.held = some inst ∧ tenantId = inst.tenantId) ∧ amountUsd = hand.owed ∧
        0 < amountUsd
  | .compensateInstance instanceId tenantId =>
      ∃ inst, hand.held = some inst ∧ (instanceId, tenantId) = inst.owner
  | .recordDeadLetter row => ∃ inst stepId reason, hand.held = some inst ∧
      inst.status = .deadLettered ∧ (inst.stepOr stepId).status = .failed ∧
      row = deadLetterOf inst stepId reason
  | .getDeadLetter .. => False
  | .resolveDeadLetter .. => False
  | .getEscalation .. => False
  | .dueEscalations .. => False
  | _ => True

/-- The operation records a dead letter. -/
def Op.files : Op → Prop
  | .recordDeadLetter _ => True
  | _ => False

/-- Operations are in order, and a due dead letter is recorded at once. -/
structure Disciplined (terms : Terms) (hand : Hand) (op : Op) : Prop where
  prompt : hand.due = true → op.files
  orderly : Orderly terms hand op

theorem Disciplined.of_settled {terms : Terms} {hand : Hand} (settled : Settled terms hand)
    (orderly : Orderly terms hand op) : Disciplined terms hand op :=
  ⟨fun due => absurd (settled.2.symm.trans due) Bool.false_ne_true, orderly⟩

/-- Where a drive raises: after a conflict all is settled. -/
def Raised (terms : Terms) (failure : Exn) (hand : Hand) : Prop :=
  (failure.exnClass = .conflict → Settled terms hand) ∧ (terms.folding → hand.due = false)

theorem Settled.raised {terms : Terms} {hand : Hand} (settled : Settled terms hand)
    (failure : Exn) : Raised terms failure hand :=
  ⟨fun _ => settled, fun _ => settled.2⟩

/-- Code that keeps to the discipline. -/
abbrev Disciplines {α : Type} (terms : Terms) (known : WorkflowDefinition → Prop)
    (post : α → Hand → Prop) (code : Code α) (hand : Hand) : Prop :=
  Safe (inHand terms known) (Disciplined terms) post (Raised terms) code hand

/-- The definition and the instance are in hand, and all is settled. -/
structure Grip (terms : Terms) (definition : WorkflowDefinition) (inst : WorkflowInstance)
    (hand : Hand) : Prop where
  definition : hand.definition = some definition
  held : hand.held = some inst
  settled : Settled terms hand

section Drives

variable {terms : Terms} {known : WorkflowDefinition → Prop} {definition : WorkflowDefinition}
  {inst : WorkflowInstance} {hand : Hand} {returns : α → Prop} {code : Code α}

/-! ## Operations that leave everything in hand -/

/-- Operations after which nothing has changed in hand. -/
def Op.idles : Op → Prop
  | .now => True
  | .newId => True
  | .spentToday .. => True
  | .deadlinePassed _ => True
  | .completeLLM .. => True
  | .external _ => True
  | .mark _ => True
  | _ => False

/-- Code that only performs such operations. -/
theorem disciplines_idle (yields : Yields Op.idles returns code) (settled : Settled terms hand) :
    Disciplines terms known (fun value next => returns value ∧ next = hand) code hand := by
  have kept (current : Hand) (op : Op) (same : current = hand) (idles : op.idles) :
      Disciplined terms current op ∧
        ∀ response next, inHand terms known current op response next → next = hand := by
    subst same
    cases op with
    | now | newId | spentToday | deadlinePassed | completeLLM | external | mark =>
      exact ⟨.of_settled settled trivial, fun _ _ told => told.2⟩
    | _ => exact idles.elim
  exact yields.safe kept (fun failure _ same => same ▸ settled.raised failure) rfl

theorem disciplines_drafts (yields : Yields Op.drafts returns code)
    (settled : Settled terms hand) :
    Disciplines terms known (fun value next => returns value ∧ next = hand) code hand :=
  disciplines_idle (yields_drafting trivial trivial yields) settled

/-! ## Appends -/

private theorem not_conflict_ofFold (failure : FoldError) :
    (Exn.ofFold failure).exnClass ≠ .conflict := by
  unfold Exn.ofFold
  split <;> nofun

theorem any_resequence (test : Payload → Bool) (version : Nat) (drafts : List Event) :
    ((resequence version drafts).any fun event => test event.payload) =
      drafts.any fun draft => test draft.payload := by
  have same := congrArg (fun payloads => payloads.any test) (payload_resequence version drafts)
  simpa [List.any_map, Function.comp_def] using same

/-- After an append: its events fold onto what was in hand, what they charge is
owed, and a move to `DEAD_LETTERED` makes a dead letter due. -/
private structure Took (terms : Terms) (definition : WorkflowDefinition) (inst : WorkflowInstance)
    (drafts : List Event) (next : WorkflowInstance) (hand : Hand) : Prop where
  read : hand.definition = some definition
  held : hand.held = some next
  folded : fold (resequence inst.version drafts) (some definition) (some inst) = .ok next
  due : hand.due = drafts.any fun draft => buries draft.payload
  owed : drafts ≠ [] → hand.owed = charged drafts
  bounded : terms.charging → hand.owed ≤ charged drafts

section Took

variable {next : WorkflowInstance} (took : Took terms definition inst drafts next hand)
  (drafted : DraftsOf inst payloads drafts)

include took drafted

private theorem Took.alive (alive : ∀ payload ∈ payloads, buries payload = false) :
    hand.due = false := by
  rw [took.due, List.any_eq_false]
  intro draft member buried
  cases (drafted.forall_mem alive draft member).symm.trans buried

private theorem Took.free (free : ∀ payload ∈ payloads, charge payload = 0)
    (charging : terms.charging) : hand.owed ≤ 0 := by
  refine (took.bounded charging).trans_eq ?_
  rw [charged_of_draftsOf drafted]
  apply List.sum_eq_zero
  intro amount member
  obtain ⟨payload, listed, rfl⟩ := List.mem_map.mp member
  exact free payload listed

private theorem Took.status (leaves : ∀ payload ∈ payloads, leavesStatus payload) :
    next.status = inst.status := by
  refine status_of_fold_batch took.folded fun event member => ?_
  have listed : event.payload ∈ (resequence inst.version drafts).map Event.payload :=
    List.mem_map_of_mem member
  rw [payload_resequence, drafted.1] at listed
  exact leaves _ listed

end Took

variable (grip : Grip terms definition inst hand) {dispatch : List (String × Nat)}
  {results : List AttemptResult} {steps : List WorkflowStep} {result : AttemptResult}
  {source target : WorkflowStatus}

include grip

private theorem disciplines_append (drafted : DraftsOf inst payloads drafts)
    (steered : ∀ payload ∈ payloads, steers payload)
    (worked : workable inst.status ∨ ∀ payload ∈ payloads, recovers payload)
    (undone : terms.undoing → (∃ payload ∈ payloads, rollsBack payload) → hand.undone = true)
    (recorded : (∃ payload ∈ payloads, recordsUndo payload) → EndsRolledBack payloads) :
    Disciplines terms known (Took terms definition inst drafts)
      (append definition inst drafts nextWakeupAt) hand := by
  have listed (draft : Event) (member : draft ∈ drafts) : draft.payload ∈ payloads :=
    drafted.1 ▸ List.mem_map_of_mem member
  unfold append
  by_cases empty : drafts = []
  · subst empty
    exact ⟨grip.definition, grip.held, rfl, grip.settled.2, nofun, grip.settled.1⟩
  · rw [if_neg fun isEmpty => empty (List.isEmpty_iff.mp isEmpty)]
    refine ⟨.of_settled grip.settled ⟨rfl, inst, grip.held, rfl, rfl, empty, drafted.2,
      drafted.forall_mem steered, worked.imp_right drafted.forall_mem, grip.settled, ?_, ?_⟩, ?_⟩
    · rintro undoing ⟨draft, member, rolls⟩
      exact undone undoing ⟨draft.payload, listed draft member, rolls⟩
    · rintro ⟨draft, member, records⟩
      rw [drafted.1]
      exact recorded ⟨draft.payload, listed draft member, records⟩
    rintro (failure | ⟨last, events⟩) next ⟨told, rfl⟩
    · exact grip.settled.raised failure
    · change Disciplines terms known _ (lift (foldOnto definition inst events)) _
      have numbered := told.believable last events rfl
      unfold foldOnto
      cases folded : fold events (some definition) (some inst) with
      | error failure =>
        refine ⟨fun conflict => absurd conflict (not_conflict_ofFold failure), fun folding => ?_⟩
        obtain ⟨_, folds⟩ := told.credible folding last events rfl
        obtain ⟨next, accepted⟩ := folds inst definition grip.held grip.definition
        cases folded.symm.trans accepted
      | ok next =>
        have new : hand.foldNew events = some next := by
          unfold Hand.foldNew
          rw [grip.held, grip.definition]
          simp [foldOnto, folded, Except.toOption]
        have charges : charged events = charged drafts := by
          rw [numbered, charged_resequence]
        refine ⟨grip.definition, new, numbered ▸ folded, ?_, fun _ => charges,
          fun _ => charges.le⟩
        change (events.any fun event => buries event.payload) = _
        rw [numbered, any_resequence]

/-- Append plain events. -/
private theorem disciplines_append_plain (drafted : DraftsOf inst payloads drafts)
    (allPlain : ∀ payload ∈ payloads, plain payload)
    (worked : workable inst.status ∨ ∀ payload ∈ payloads, recovers payload) :
    Disciplines terms known (Took terms definition inst drafts)
      (append definition inst drafts nextWakeupAt) hand := by
  refine disciplines_append grip drafted
    (fun payload member => steers_of_plain (allPlain payload member)) worked ?_ ?_
  · rintro _ ⟨payload, member, rolls⟩
    exact absurd rolls (not_rollsBack_of_plain (allPlain payload member))
  · rintro ⟨payload, member, records⟩
    exact absurd records (not_recordsUndo_of_plain (allPlain payload member))

/-- Append plain events that leave the status of the workflow alone. -/
private theorem disciplines_append_leaving (drafted : DraftsOf inst payloads drafts)
    (all : ∀ payload ∈ payloads, plain payload ∧ leavesStatus payload)
    (worked : workable inst.status ∨ ∀ payload ∈ payloads, recovers payload) :
    Disciplines terms known
      (fun next hand' => Grip terms definition next hand' ∧ next.status = inst.status)
      (append definition inst drafts nextWakeupAt) hand := by
  refine (disciplines_append_plain grip drafted (fun payload member => (all payload member).1)
    worked).imp fun next hand' took => ⟨⟨took.read, took.held, ?_, ?_⟩, ?_⟩
  · exact took.free drafted fun payload member => charge_of_plain (all payload member).1
  · exact took.alive drafted fun payload member => not_buries_of_leavesStatus (all payload member).2
  · exact took.status drafted fun payload member => (all payload member).2

/-- The steps that a dead worker left running are made runnable again. -/
private theorem disciplines_recoverInFlight :
    Disciplines terms known (fun next hand' => Grip terms definition next hand')
      (recoverInFlight definition inst) hand := by
  unfold recoverInFlight
  dsimp only
  rw [← traverse_map (draftEvent inst) fun stepId =>
    Payload.stepStatusChanged stepId .running .ready (some "worker-recovered")]
  refine Safe.bind (disciplines_drafts (yields_drafts inst _) grip.settled) ?_
  rintro drafts _ ⟨drafted, rfl⟩
  refine (disciplines_append_leaving grip drafted ?_ (.inr ?_)).imp fun _ _ ended => ended.1
  · exact List.forall_mem_map.mpr fun _ _ => ⟨⟨rfl, .inr rfl⟩, trivial⟩
  · exact List.forall_mem_map.mpr fun _ _ => trivial

variable (work : workable inst.status)

include work

/-- Append plain events that do not move the workflow to `DEAD_LETTERED`. -/
private theorem disciplines_append_kind (drafted : DraftsOf inst payloads drafts)
    (all : ∀ payload ∈ payloads, plain payload ∧ buries payload = false) :
    Disciplines terms known (fun next hand' => Grip terms definition next hand')
      (append definition inst drafts nextWakeupAt) hand := by
  refine (disciplines_append_plain grip drafted (fun payload member => (all payload member).1)
    (.inl work)).imp fun next hand' took => ⟨took.read, took.held, ?_, ?_⟩
  · exact took.free drafted fun payload member => charge_of_plain (all payload member).1
  · exact took.alive drafted fun payload member => (all payload member).2

private theorem disciplines_transition {reason : Option String} (kept : target ≠ .rolledBack)
    (alive : target ≠ .deadLettered) :
    Disciplines terms known (fun next hand' => Grip terms definition next hand')
      (transition definition inst source target reason nextWakeupAt) hand := by
  refine Safe.bind (disciplines_drafts (yields_draftEvent inst _) grip.settled) ?_
  rintro draft _ ⟨drafted, rfl⟩
  refine disciplines_append_kind grip work drafted (List.forall_mem_singleton.mpr ⟨kept, ?_⟩)
  cases target with
  | deadLettered => exact absurd rfl alive
  | _ => rfl

/-- Move the workflow to `DEAD_LETTERED`. -/
private theorem disciplines_bury {reason : Option String} : Disciplines terms known
      (fun next hand' => (hand'.held = some next ∧ (terms.charging → hand'.owed ≤ 0)) ∧
        next.status = .deadLettered ∧
          ∀ stepId, (next.stepOr stepId).status = (inst.stepOr stepId).status)
      (transition definition inst source .deadLettered reason) hand := by
  refine Safe.bind (disciplines_drafts (yields_draftEvent inst _) grip.settled) ?_
  rintro draft _ ⟨drafted, rfl⟩
  refine (disciplines_append_plain grip drafted (List.forall_mem_singleton.mpr nofun)
    (.inl work)).imp fun next _ took => ⟨⟨took.held, ?_⟩, ?_⟩
  · exact took.free drafted (List.forall_mem_singleton.mpr rfl)
  · exact view_of_fold_moved took.folded (List.cons.inj drafted.1).1

omit work

/-! ## Waves -/

omit grip in
theorem sum_charge_resultPayloads (result : AttemptResult) :
    ((resultPayloads result).map charge).sum =
      (result.outcome.charges.map CostEntry.amountUsd).sum := by
  have recordings : ((result.outcome.llmRecordings.map
      (Payload.llmCallRecorded result.stepId result.attempt)).map charge).sum = 0 := by
    apply List.sum_eq_zero
    simp [charge]
  have effects : ((result.outcome.effects.flatMap (effectPayloads result.stepId)).map
      charge).sum = 0 := by
    apply List.sum_eq_zero
    simp only [effectPayloads, List.map_flatMap, List.mem_flatMap]
    rintro amount ⟨effect, _, member⟩
    split at member <;> simpa [charge] using member
  have outcome : charge (outcomePayload result) = 0 := by
    unfold outcomePayload
    split <;> rfl
  have charges : (result.outcome.charges.map fun entry =>
      Payload.costCharged (some result.stepId) entry.amountUsd entry.model entry.tokensInput
        entry.tokensOutput).map charge = result.outcome.charges.map CostEntry.amountUsd :=
    List.map_map
  unfold resultPayloads
  simp only [List.map_append, List.sum_append, recordings, charges, effects, List.map_singleton,
    List.sum_singleton, outcome, zero_add, add_zero]

omit grip in
theorem sum_charge_results (results : List AttemptResult) :
    ((results.flatMap resultPayloads).map charge).sum =
      (results.flatMap fun result => result.outcome.charges.map CostEntry.amountUsd).sum := by
  induction results with
  | nil => rfl
  | cons result rest ih =>
    rw [List.flatMap_cons, List.flatMap_cons, List.map_append, List.sum_append, List.sum_append,
      ih, sum_charge_resultPayloads]

omit grip in
/-- The events of finished attempts are a drive's own, and have nothing to do with
a rollback. -/
theorem leaving_of_mem_resultPayloads (member : payload ∈ resultPayloads result) :
    steers payload ∧ leavesStatus payload ∧ ¬ recordsUndo payload := by
  unfold resultPayloads at member
  simp only [List.mem_append, List.mem_map, List.mem_flatMap, List.mem_singleton] at member
  rcases member with ((⟨_, _, rfl⟩ | ⟨_, _, rfl⟩) | ⟨effect, _, member⟩) | rfl
  · exact ⟨trivial, trivial, id⟩
  · exact ⟨trivial, trivial, id⟩
  · unfold effectPayloads at member
    split at member
    · rw [List.nil_append, List.mem_singleton] at member
      exact member ▸ ⟨trivial, trivial, id⟩
    · simp only [List.cons_append, List.nil_append, List.mem_cons, List.not_mem_nil,
        or_false] at member
      rcases member with rfl | rfl <;> exact ⟨trivial, trivial, id⟩
  · unfold outcomePayload
    split <;> exact ⟨trivial, trivial, id⟩

omit grip in
theorem exists_of_retryPayload {now : Time} (earned : retryPayload now result = some payload) :
    ∃ stepId attempt time, payload = .stepRetryScheduled stepId attempt time := by
  unfold retryPayload at earned
  split at earned
  · cases earned
  · split at earned
    · cases earned
      exact ⟨_, _, _, rfl⟩
    · cases earned

omit grip in
theorem leaving_of_retryPayload {now : Time} (earned : retryPayload now result = some payload) :
    plain payload ∧ leavesStatus payload := by
  obtain ⟨_, _, _, rfl⟩ := exists_of_retryPayload earned
  exact ⟨trivial, trivial⟩

omit grip in
theorem yields_budgetView {allowed : Op → Prop} (now : allowed .now)
    (spent : ∀ time, allowed (.spentToday inst.tenantId time)) :
    Yields allowed (fun _ => True) (budgetView config inst) := by
  unfold budgetView
  cases config.budget with
  | none => trivial
  | some dailyLimit =>
    refine Safe.bind (yields_call now) fun time _ _ => ?_
    cases dailyLimit with
    | none => trivial
    | some limit => exact Safe.bind (yields_call (spent time)) fun _ _ _ => trivial

/-- The attempts of a wave leave the instance in hand. -/
private theorem disciplines_gather {budget : Option BudgetView} :
    Disciplines terms known (fun _ hand' => Grip terms definition inst hand')
      (gather (runOne config definition inst budget) dispatch) hand := by
  have kept (current : Hand) (op : Op) (grip : Grip terms definition inst current)
      (inWave : op.inWave config budget) : Disciplined terms current op ∧
        ∀ response next, inHand terms known current op response next →
          Grip terms definition inst next := by
    cases op with
    | executeEffect | now | deadlinePassed | external | completeLLM | mark =>
      refine ⟨.of_settled grip.settled trivial, ?_⟩
      rintro _ _ ⟨_, rfl⟩
      exact ⟨grip.definition, grip.held, grip.settled⟩
    | _ => exact inWave.elim
  exact ((yields_gather config definition inst budget dispatch).safe kept
    (fun failure _ grip => grip.settled.raised failure) grip).imp fun _ _ ended => ended.2

variable (charging : terms.charging → config.budget.isSome)

include charging

omit grip in
/-- What the attempts have charged is entered into the ledger. -/
private theorem disciplines_recordWaveSpend
    {base : WorkflowInstance} (took : Took terms definition base drafts inst hand)
    (drafted : charged drafts = ((results.flatMap resultPayloads).map charge).sum)
    (settled : hand.due = false) :
    Disciplines terms known (fun _ hand' => Grip terms definition inst hand')
      (recordWaveSpend config inst results) hand := by
  rw [sum_charge_results] at drafted
  unfold recordWaveSpend
  cases wired : config.budget with
  | none =>
    refine ⟨took.read, took.held, fun isCharging => ?_, settled⟩
    have isWired := charging isCharging
    rw [wired] at isWired
    cases isWired
  | some limit =>
    dsimp only
    by_cases positive : 0 < (results.flatMap fun result =>
        result.outcome.charges.map CostEntry.amountUsd).sum
    · rw [if_pos positive]
      have nonempty : drafts ≠ [] := by
        rintro rfl
        rw [← drafted] at positive
        exact absurd positive (lt_irrefl 0)
      have owed := (took.owed nonempty).trans drafted
      have nothingDue : hand.due = true → False :=
        fun due => Bool.false_ne_true (settled.symm.trans due)
      refine ⟨⟨nothingDue, trivial⟩, ?_⟩
      rintro now current ⟨_, rfl⟩
      refine ⟨⟨nothingDue, ⟨inst, took.held, rfl⟩, owed.symm, positive⟩, ?_⟩
      rintro _ _ ⟨_, rfl⟩
      refine ⟨took.read, took.held, fun _ => ?_, settled⟩
      change current.owed - _ ≤ 0
      rw [owed, sub_self]
    · rw [if_neg positive]
      refine ⟨took.read, took.held, fun isCharging => ?_, settled⟩
      exact (took.bounded isCharging).trans (drafted.trans_le (not_lt.mp positive))

omit charging in
omit grip in
/-- Drafting escalations. -/
theorem yields_reviewEvents (inst : WorkflowInstance) (now : Time)
    (reviews : List (String × ReviewRequest)) : Yields Op.drafts
      (fun events => ∃ payloads, DraftsOf inst payloads events ∧
        ∀ payload ∈ payloads, announces payload)
      (Program.traverse (reviewEvent inst now) reviews) := by
  apply safe_traverse fun _ events _ => ∃ payloads, DraftsOf inst payloads events ∧
    ∀ payload ∈ payloads, announces payload
  · exact ⟨[], .nil inst, List.forall_mem_nil _⟩
  · rintro before review after _ events _ ⟨payloads, drafted, all⟩
    refine Safe.bind (yields_call trivial) fun escalationId _ _ => ?_
    refine Safe.imp (yields_draftEvent inst _) fun event _ more => ?_
    exact ⟨_, drafted.append more, forall_mem_concat all trivial⟩

omit charging in
omit grip in
/-- Announcements, and the move that parks the workflow. -/
private theorem kind_of_announces {reason : Option String}
    (all : ∀ payload ∈ payloads, announces payload) :
    ∀ payload ∈ payloads ++ [.instanceStatusChanged .running .waitingApproval reason],
      plain payload ∧ buries payload = false :=
  forall_mem_concat (fun payload member => ⟨plain_of_announces (all payload member),
    not_buries_of_leavesStatus (leavesStatus_of_announces (all payload member))⟩) ⟨nofun, rfl⟩

include work

omit charging in
private theorem disciplines_raiseReviewEscalations {reviews : List (String × ReviewRequest)} :
    Disciplines terms known (fun next hand' => Grip terms definition next hand')
      (raiseReviewEscalations definition inst reviews) hand := by
  refine Safe.bind (disciplines_idle (yields_call trivial) grip.settled) ?_
  rintro now _ ⟨_, rfl⟩
  refine Safe.bind (disciplines_drafts (yields_reviewEvents inst now reviews) grip.settled) ?_
  rintro raised _ ⟨⟨payloads, drafted, all⟩, rfl⟩
  refine Safe.bind (disciplines_drafts (yields_draftEvent inst _) grip.settled) ?_
  rintro parked _ ⟨more, rfl⟩
  exact disciplines_append_kind grip work (drafted.append more) (kind_of_announces all)

private theorem disciplines_settleWave :
    Disciplines terms known (fun next hand' => Grip terms definition next hand')
      (settleWave config definition inst results) hand := by
  refine Safe.bind (disciplines_drafts (yields_drafts inst _) grip.settled) ?_
  rintro drafts current ⟨drafted, rfl⟩
  have own : ∀ payload ∈ results.flatMap resultPayloads,
      steers payload ∧ leavesStatus payload ∧ ¬ recordsUndo payload := by
    intro payload member
    obtain ⟨result, _, listed⟩ := List.mem_flatMap.mp member
    exact leaving_of_mem_resultPayloads listed
  have noRollback : terms.undoing → (∃ payload ∈ results.flatMap resultPayloads,
      rollsBack payload) → current.undone = true := by
    rintro _ ⟨payload, listed, rolls⟩
    exact absurd rolls (not_rollsBack_of_leavesStatus (own payload listed).2.1)
  have noRecord : (∃ payload ∈ results.flatMap resultPayloads, recordsUndo payload) →
      EndsRolledBack (results.flatMap resultPayloads) := by
    rintro ⟨payload, listed, records⟩
    exact absurd records (own payload listed).2.2
  refine Safe.bind (disciplines_append grip drafted (fun payload listed => (own payload listed).1)
    (.inl work) noRollback noRecord) ?_
  intro inst hand' took
  rw [← took.status drafted fun payload listed => (own payload listed).2.1] at work
  refine Safe.bind (disciplines_recordWaveSpend charging took (charged_of_draftsOf drafted)
    (took.alive drafted fun payload listed =>
      not_buries_of_leavesStatus (own payload listed).2.1)) ?_
  intro _ hand' grip
  refine Safe.bind (disciplines_idle (yields_call trivial) grip.settled) ?_
  rintro now _ ⟨_, rfl⟩
  refine Safe.bind (disciplines_drafts (yields_drafts inst _) grip.settled) ?_
  rintro retries _ ⟨drafted, rfl⟩
  have retry : ∀ payload ∈ results.filterMap (retryPayload now),
      plain payload ∧ leavesStatus payload := by
    intro payload member
    obtain ⟨result, _, earned⟩ := List.mem_filterMap.mp member
    exact leaving_of_retryPayload earned
  refine Safe.bind (disciplines_append_leaving grip drafted retry (.inl work)) ?_
  rintro inst hand' ⟨grip, sameStatus⟩
  rw [← sameStatus] at work
  dsimp only
  split
  · exact grip
  · exact disciplines_raiseReviewEscalations grip work

private theorem disciplines_dispatchWave :
    Disciplines terms known (fun next hand' => Grip terms definition next hand')
      (dispatchWave config definition lease inst dispatch) hand := by
  refine Safe.bind (disciplines_drafts (yields_groups dispatch
    (yields_startEvents inst lease.workerId)) grip.settled) ?_
  rintro started _ ⟨⟨payloads, drafted, all⟩, rfl⟩
  refine Safe.bind (disciplines_append_leaving grip drafted (fun payload member =>
    ⟨plain_of_launches (all payload member),
      leavesStatus_of_announces (announces_of_launches (all payload member))⟩) (.inl work)) ?_
  rintro inst hand' ⟨grip, sameStatus⟩
  rw [← sameStatus] at work
  refine Safe.bind (disciplines_idle (yields_budgetView trivial fun _ => trivial) grip.settled) ?_
  rintro budget _ ⟨_, rfl⟩
  refine Safe.bind (disciplines_gather grip) ?_
  intro results hand' grip
  exact disciplines_settleWave grip work charging

/-! ## The ends of a drive -/

omit charging

/-- Draft two events and append them. -/
private theorem disciplines_pair {first second : Payload} {value : α}
    (isKind : plain first ∧ buries first = false) (isKind' : plain second ∧ buries second = false) :
    Disciplines terms known (fun _ hand' => Settled terms hand')
      (do
        let one ← draftEvent inst first
        let other ← draftEvent inst second
        let _ ← append definition inst [one, other]
        pure value) hand := by
  refine Safe.bind (disciplines_drafts (yields_draftEvent inst _) grip.settled) ?_
  rintro one _ ⟨drafted, rfl⟩
  refine Safe.bind (disciplines_drafts (yields_draftEvent inst _) grip.settled) ?_
  rintro other _ ⟨more, rfl⟩
  exact Safe.bind (disciplines_append_kind grip work (drafted.append more)
    (forall_mem_concat (List.forall_mem_singleton.mpr isKind) isKind'))
    fun _ _ grip => grip.settled

private theorem disciplines_complete :
    Disciplines terms known (fun _ hand' => Settled terms hand') (complete definition inst)
      hand :=
  disciplines_pair grip work ⟨nofun, rfl⟩ ⟨trivial, rfl⟩

private theorem disciplines_escalate {stepId reason recommendation parkReason : String} :
    Disciplines terms known (fun _ hand' => Settled terms hand')
      (escalate definition inst stepId reason recommendation parkReason) hand := by
  refine Safe.bind (disciplines_idle (yields_call trivial) grip.settled) ?_
  rintro escalationId _ ⟨_, rfl⟩
  exact disciplines_pair grip work ⟨trivial, rfl⟩ ⟨nofun, rfl⟩

private theorem disciplines_blockOnBudget {stepId : String} :
    Disciplines terms known (fun _ hand' => Settled terms hand')
      (blockOnBudget definition inst stepId) hand :=
  disciplines_pair grip work ⟨trivial, rfl⟩ ⟨nofun, rfl⟩

omit work in
omit grip in
theorem yields_approvalEvents (definition : WorkflowDefinition) (inst : WorkflowInstance)
    (now : Time) (stepId : String) : Yields Op.drafts
      (fun events => ∃ payloads, DraftsOf inst payloads events ∧
        ∀ payload ∈ payloads, announces payload) (approvalEvents definition inst now stepId) := by
  refine yields_lift_bind fun step _ => ?_
  refine Safe.bind (yields_readyEvents inst stepId) ?_
  rintro readied _ ⟨payloads, drafted, all⟩
  refine Safe.bind (yields_call trivial) fun escalationId _ _ => ?_
  refine Safe.bind (yields_draftEvent inst _) fun raised _ more => ?_
  exact ⟨_, drafted.append more,
    forall_mem_concat (fun payload member => announces_of_launches (all payload member)) trivial⟩

private theorem disciplines_escalateForApproval {stepIds : List String} :
    Disciplines terms known (fun _ hand' => Settled terms hand')
      (escalateForApproval definition inst stepIds) hand := by
  refine Safe.bind (disciplines_idle (yields_call trivial) grip.settled) ?_
  rintro now _ ⟨_, rfl⟩
  refine Safe.bind (disciplines_drafts (yields_groups stepIds
    (yields_approvalEvents definition inst now)) grip.settled) ?_
  rintro raised _ ⟨⟨payloads, drafted, all⟩, rfl⟩
  refine Safe.bind (disciplines_drafts (yields_draftEvent inst _) grip.settled) ?_
  rintro parked _ ⟨more, rfl⟩
  exact Safe.bind (disciplines_append_kind grip work (drafted.append more) (kind_of_announces all))
    fun _ _ grip => grip.settled

/-! ## Rollbacks -/

/-- A runner that performs no actions through the guard. -/
def Quiet (runner : RunnerCode) : Prop :=
  Yields (fun op => ¬ op.acts) (fun _ => True) runner

/-- The compensation handlers of a definition perform no actions. -/
def QuietHandlers (config : Config) (definition : WorkflowDefinition) : Prop :=
  ∀ step ∈ definition.steps, truthy step.compensationAction = true → ∀ runner,
    config.registry (step.compensationAction.getD "") = some runner → ∀ ctx, Quiet (runner ctx)

/-- In hand, and undone if rollbacks have to undo. -/
private def GripUndone (terms : Terms) (definition : WorkflowDefinition) (inst : WorkflowInstance)
    (hand : Hand) : Prop :=
  Grip terms definition inst hand ∧ (terms.undoing → hand.undone = true)

omit grip
omit work

private theorem disciplines_undoSideEffects (undoing : terms.undoing → config.hasSideEffects = true)
    (grip : Grip terms definition inst hand) : Disciplines terms known
      (fun result hand' => Grip terms definition inst hand' ∧
        (result.isOk → terms.undoing → hand'.undone = true)) (undoSideEffects config inst)
          hand := by
  unfold undoSideEffects
  cases wired : config.hasSideEffects with
  | false =>
    refine ⟨grip, fun _ isUndoing => ?_⟩
    have isWired := undoing isUndoing
    rw [wired] at isWired
    cases isWired
  | true =>
    refine ⟨.of_settled grip.settled ⟨inst, grip.held, rfl⟩, ?_⟩
    rintro (failure | undone) _ ⟨_, rfl⟩
    · change Disciplines terms known _ (ite _ _ _) { hand with undone := false }
      split
      · exact ⟨⟨grip.definition, grip.held, grip.settled⟩, nofun⟩
      · exact Settled.raised grip.settled failure
    · exact ⟨⟨grip.definition, grip.held, grip.settled⟩, fun _ _ => rfl⟩

private theorem safe_handlerAttempt {ctx : StepContext} {timeoutSeconds : Nat}
    (quiet : terms.undoing → ∀ runner, config.registry ctx.agentType = some runner →
      ∀ ctx, Quiet (runner ctx)) (grip : GripUndone terms definition inst hand) :
    Safe (inHand terms known) (Disciplined terms)
      (fun _ hand' => GripUndone terms definition inst hand')
      (fun _ hand' => GripUndone terms definition inst hand')
      (runAttempt config ctx timeoutSeconds) hand := by
  have mayAct (runner : Runner) (registered : config.registry ctx.agentType = some runner) :
      Yields (fun op => op.acts → ¬ terms.undoing) (fun _ => True) (runner ctx) := by
    by_cases undoing : terms.undoing
    · exact Yields.mono (quiet undoing runner registered ctx)
        (fun _ silent acts => absurd acts silent)
        fun _ holds => holds
    · exact yields_of_forall (fun _ _ => undoing) _
  have kept (current : Hand) (op : Op) (grip : GripUndone terms definition inst current)
      (allowed : op.attempts ctx ∧ (op.acts → ¬ terms.undoing)) : Disciplined terms current op ∧
        ∀ response next, inHand terms known current op response next →
          GripUndone terms definition inst next := by
    cases op with
    | executeEffect =>
      refine ⟨.of_settled grip.1.settled trivial, ?_⟩
      rintro _ _ ⟨_, rfl⟩
      exact ⟨⟨grip.1.definition, grip.1.held, grip.1.settled⟩,
        fun undoing => absurd undoing (allowed.2 trivial)⟩
    | now | deadlinePassed | external | completeLLM =>
      refine ⟨.of_settled grip.1.settled trivial, ?_⟩
      rintro _ _ ⟨_, rfl⟩
      exact grip
    | _ => exact allowed.1.elim
  exact ((yields_runAttempt timeoutSeconds mayAct).safe kept (fun _ _ grip => grip) grip).imp
    fun _ _ ended => ended.2

private theorem safe_runStepCompensation {step : WorkflowStep} (quiet : terms.undoing → ∀ runner,
      config.registry (step.compensationAction.getD "") = some runner → ∀ ctx, Quiet (runner ctx))
    (grip : GripUndone terms definition inst hand) : Safe (inHand terms known) (Disciplined terms)
      (fun _ hand' => GripUndone terms definition inst hand')
      (fun _ hand' => GripUndone terms definition inst hand')
      (runStepCompensation config inst step) hand := by
  refine safe_lift_bind (fun state _ => ?_) fun _ _ => grip
  refine Safe.bind (safe_handlerAttempt quiet grip) ?_
  rintro (success | failure) _ grip <;> exact grip

/-- Run the compensation handlers. -/
private theorem disciplines_compensateSteps (quiet : terms.undoing → ∀ step ∈ steps, ∀ runner,
      config.registry (step.compensationAction.getD "") = some runner → ∀ ctx, Quiet (runner ctx))
    (grip : GripUndone terms definition inst hand) :
    Disciplines terms known (fun _ hand' => GripUndone terms definition inst hand')
      (compensateSteps config inst steps) hand := by
  induction steps generalizing hand with
  | nil => exact grip
  | cons step rest ih =>
    have ran : Safe (inHand terms known) (Disciplined terms)
        (fun _ hand' => GripUndone terms definition inst hand')
        (fun _ hand' => GripUndone terms definition inst hand')
        (runStepCompensation config inst step) hand :=
      safe_runStepCompensation (fun undoing => quiet undoing step List.mem_cons_self) grip
    refine Safe.bind ran.settle ?_
    rintro (failure | _) current grip
    · dsimp only
      split
      · exact grip
      · exact grip.1.settled.raised failure
    · exact ih (fun undoing other listed => quiet undoing other (List.mem_cons_of_mem _ listed))
        grip

theorem mem_of_stepsToCompensate {steps chosen : List WorkflowStep}
    (found : stepsToCompensate inst steps = .ok chosen) :
    ∀ step ∈ chosen, step ∈ steps ∧ truthy step.compensationAction = true := by
  induction steps generalizing chosen with
  | nil =>
    cases found
    exact List.forall_mem_nil _
  | cons step rest ih =>
    have later (chosen : List WorkflowStep) (found : stepsToCompensate inst rest = .ok chosen)
        (other : WorkflowStep) (member : other ∈ chosen) :
        other ∈ step :: rest ∧ truthy other.compensationAction = true :=
      ⟨List.mem_cons_of_mem _ (ih found other member).1, (ih found other member).2⟩
    unfold stepsToCompensate at found
    split at found
    · next hasAction =>
      cases looked : stepState inst step.stepId with
      | error failure =>
        rw [looked] at found
        cases found
      | ok state =>
        rw [looked] at found
        cases others : stepsToCompensate inst rest with
        | error failure =>
          rw [others] at found
          cases found
        | ok chosen' =>
          rw [others] at found
          cases found
          intro other member
          split at member
          · rcases List.mem_cons.mp member with rfl | listed
            · exact ⟨List.mem_cons_self, hasAction⟩
            · exact later chosen' others other listed
          · exact later chosen' others other member
    · exact later chosen found

private theorem kind_of_mem_rollbackPayloads {undone : List EffectOutcome} {reason : String}
    (member : payload ∈ rollbackPayloads undone steps reason) :
    steers payload ∧ charge payload = 0 ∧ buries payload = false := by
  unfold rollbackPayloads at member
  simp only [List.mem_append, List.mem_map, List.mem_singleton] at member
  rcases member with (⟨_, _, rfl⟩ | ⟨_, _, rfl⟩) | rfl <;> exact ⟨trivial, rfl, rfl⟩

private theorem disciplines_rollback {reason : String}
    (undoing : terms.undoing → config.hasSideEffects = true ∧ QuietHandlers config definition)
    (grip : Grip terms definition inst hand) (work : workable inst.status) :
    Disciplines terms known (fun _ hand' => Settled terms hand')
      (rollback config definition inst reason) hand := by
  refine Safe.bind (disciplines_undoSideEffects (fun isUndoing => (undoing isUndoing).1) grip) ?_
  rintro (detail | undone) current ⟨grip, isUndone⟩
  · exact disciplines_escalate grip work
  · refine safe_lift_bind (fun steps found => ?_) fun failure _ => grip.settled.raised failure
    have quiet : terms.undoing → ∀ step ∈ steps, ∀ runner,
        config.registry (step.compensationAction.getD "") = some runner →
          ∀ ctx, Quiet (runner ctx) := by
      intro isUndoing step member
      obtain ⟨listed, hasAction⟩ := mem_of_stepsToCompensate found step member
      exact (undoing isUndoing).2 step (List.mem_reverse.mp listed) hasAction
    refine Safe.bind (disciplines_compensateSteps quiet ⟨grip, isUndone rfl⟩) ?_
    rintro (_ | detail) current ⟨grip, isUndone⟩
    · refine Safe.bind (disciplines_drafts (yields_drafts inst _) grip.settled) ?_
      rintro drafts _ ⟨drafted, rfl⟩
      refine Safe.bind (disciplines_append grip drafted
        (fun payload member => (kind_of_mem_rollbackPayloads member).1) (.inl work)
        (fun isUndoing _ => isUndone isUndoing) fun _ => ⟨_, _, rfl, trivial⟩) ?_
      exact fun _ _ took => ⟨
        took.free drafted fun payload member => (kind_of_mem_rollbackPayloads member).2.1,
        took.alive drafted fun payload member => (kind_of_mem_rollbackPayloads member).2.2⟩
    · exact disciplines_escalate grip work

/-! ## The main loop -/

/-- What the terms ask of a worker. -/
structure Terms.Met (terms : Terms) (known : WorkflowDefinition → Prop) (config : Config) :
    Prop where
  charging : terms.charging → config.budget.isSome
  undoing : terms.undoing → config.hasSideEffects = true ∧
    ∀ definition, known definition → QuietHandlers config definition

/-- The move to `DEAD_LETTERED` is followed by the dead letter. -/
private theorem disciplines_deadLetter {stepId reason : String}
    (grip : Grip terms definition inst hand) (work : workable inst.status)
    (failed : (inst.stepOr stepId).status = .failed) :
    Disciplines terms known (fun _ hand' => Settled terms hand')
      (do
        let inst ← transition definition inst .running .deadLettered (some reason)
        lift (← Code.recordDeadLetter (deadLetterOf inst stepId reason))
        pure { instanceId := inst.instanceId, result := .deadLettered : DriveReport }) hand := by
  refine Safe.bind (disciplines_bury grip work) ?_
  rintro next hand' ⟨⟨held, owed⟩, dead, sameSteps⟩
  refine ⟨⟨fun _ => trivial, next, stepId, reason, held, dead, ?_, rfl⟩, ?_⟩
  · rw [sameSteps, failed]
  · rintro recorded _ ⟨_, rfl⟩
    have settled : Settled terms { hand' with due := false } := ⟨owed, rfl⟩
    exact safe_lift_bind (fun _ _ => settled) fun failure _ => settled.raised failure

variable (met : terms.Met known config)

include met

private theorem disciplines_applyFailurePolicy {failure : String × String}
    (isKnown : known definition) (grip : Grip terms definition inst hand)
    (work : workable inst.status) (failed : (inst.stepOr failure.1).status = .failed) :
    Disciplines terms known (fun _ hand' => Settled terms hand')
      (applyFailurePolicy config definition inst failure) hand := by
  refine Safe.bind (disciplines_idle (yields_call trivial) grip.settled) ?_
  rintro _ _ ⟨_, rfl⟩
  split
  · exact disciplines_escalate grip work
  · cases definition.onFailure with
    | escalate => exact disciplines_escalate grip work
    | rollback =>
      exact disciplines_rollback (fun undoing =>
        ⟨(met.undoing undoing).1, (met.undoing undoing).2 definition isKnown⟩) grip work
    | deadLetter => exact disciplines_deadLetter grip work failed
    | pause =>
      exact Safe.bind (disciplines_transition grip work (by decide) (by decide))
        fun _ _ grip => grip.settled

/-- All is settled, and if the drive goes on, the instance is in hand. -/
private def Turned (terms : Terms) (definition : WorkflowDefinition) : Turn → Hand → Prop
  | .report _, hand => Settled terms hand
  | .again inst, hand => Grip terms definition inst hand

private theorem disciplines_followPlan {plan : Plan} {now : Time} (isKnown : known definition)
    (grip : Grip terms definition inst hand) (work : workable inst.status)
    (sound : SoundPlan inst definition now plan) : Disciplines terms known (Turned terms definition)
      (followPlan config definition lease inst plan) hand := by
  have course := course_followPlan config definition lease inst plan
  generalize followPlan config definition lease inst plan = code at course ⊢
  cases course with
  | blocked => exact (disciplines_blockOnBudget grip work).map fun _ _ settled => settled
  | approvals => exact (disciplines_escalateForApproval grip work).map fun _ _ settled => settled
  | failed failed _ _ failure =>
    exact (disciplines_applyFailurePolicy met isKnown grip work
      (sound.failure failed failure).2.1).map fun _ _ settled => settled
  | waved => exact (disciplines_dispatchWave grip work met.charging).map fun _ _ grip => grip
  | completed => exact (disciplines_complete grip work).map fun _ _ settled => settled
  | parked =>
    exact Safe.bind (disciplines_transition grip work (by decide) (by decide))
      fun _ _ grip => grip.settled
  | idle => exact grip.settled

private theorem disciplines_runTurn (isKnown : known definition)
    (grip : Grip terms definition inst hand) :
    Disciplines terms known (Turned terms definition) (runTurn config definition lease inst)
      hand := by
  unfold runTurn
  cases status : inst.status with
  | pending | retrying =>
    exact (disciplines_transition grip (by rw [status]; trivial) (by decide) (by decide)).map
      fun _ _ grip => grip
  | running =>
    refine Safe.bind (disciplines_idle (yields_call trivial) grip.settled) ?_
    rintro now _ ⟨_, rfl⟩
    exact safe_lift_bind (fun plan planned => disciplines_followPlan met isKnown grip
      (by rw [status]; trivial) (soundPlan planned)) fun failure _ => grip.settled.raised failure
  | _ => exact grip.settled

private theorem disciplines_runLoop (isKnown : known definition) (fuel : Nat)
    (grip : Grip terms definition inst hand) :
    Disciplines terms known (fun _ hand' => Settled terms hand')
      (runLoop config definition lease fuel inst) hand := by
  induction fuel generalizing inst hand with
  | zero => exact grip.settled.raised _
  | succ fuel ih =>
    refine Safe.bind (disciplines_runTurn met isKnown grip) ?_
    rintro (report | inst) current turned
    · exact turned
    · exact ih turned

end Drives

/-- Every drive keeps to the discipline, and where it ends all is settled; a drive that
raises leaves no dead letter due, if what it appends folds. -/
theorem disciplines_drive {terms : Terms} (lease : Lease) (met : terms.Met known config) :
    Disciplines terms known (fun _ hand' => Settled terms hand') (drive config lease) {} := by
  have settled (definition : Option WorkflowDefinition) (held : Option WorkflowInstance) :
      Settled terms { definition := definition, held := held } :=
    ⟨fun _ => le_refl 0, rfl⟩
  refine ⟨.of_settled (settled none none) rfl, ?_⟩
  rintro (_ | definition) _ ⟨told, rfl⟩
  · exact (settled none none).raised _
  · refine ⟨.of_settled (settled (some definition) none) ⟨rfl, rfl⟩, ?_⟩
    rintro (failure | inst) _ ⟨_, rfl⟩
    · exact (settled (some definition) none).raised failure
    · cases inst with
      | none => exact settled (some definition) none
      | some inst =>
        have grip : Grip terms definition inst
            { definition := some definition, held := some inst } :=
          ⟨rfl, rfl, settled (some definition) (some inst)⟩
        refine Safe.attempt (Safe.bind (disciplines_recoverInFlight grip)
          fun next current grip => disciplines_runLoop met (told.believable definition rfl)
            maxDriveIterations grip) ?_
        intro failure current raised
        split
        · exact raised.1 ‹_›
        · exact raised

end AgentForge.Engine
