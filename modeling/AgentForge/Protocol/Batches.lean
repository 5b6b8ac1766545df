import AgentForge.Protocol.Rest

/-!
# Batches

Drafted batches and how their legality is proved: event by event within a group
of events about one item, group by group along a list of items.
-/

namespace AgentForge.Protocol

open Domain Events

variable {rules : Rules}

/-! ## Drafts -/

/-- Events with the given payloads, drafted no earlier than a point in time. -/
structure Drafted (rules : Rules) (time : Time) (payloads : List Payload)
    (events : List Event) : Prop where
  payloads : events.map Event.payload = payloads
  times : rules.monotone → ∀ event ∈ events, time ≤ event.occurredAt

namespace Drafted

variable {time : Time} {payloads more : List Payload} {events others : List Event}
  {payload : Payload}

theorem nil : Drafted rules time [] [] :=
  ⟨rfl, fun _ _ member => absurd member List.not_mem_nil⟩

theorem append (first : Drafted rules time payloads events)
    (second : Drafted rules time more others) :
    Drafted rules time (payloads ++ more) (events ++ others) := by
  constructor
  · rw [List.map_append, first.payloads, second.payloads]
  · intro monotone event member
    rcases List.mem_append.mp member with member | member
    · exact first.times monotone event member
    · exact second.times monotone event member

variable (drafted : Drafted rules time payloads events)

include drafted

/-- Drafts made after a point in time were made after an earlier one. -/
theorem of_le {earlier : Time} (le : rules.monotone → earlier ≤ time) :
    Drafted rules earlier payloads events :=
  ⟨drafted.payloads, fun monotone event member =>
    (le monotone).trans (drafted.times monotone event member)⟩

omit drafted in
theorem eq_cons (drafted : Drafted rules time (payload :: payloads) events) :
    ∃ event rest, events = event :: rest ∧ event.payload = payload ∧
      (rules.monotone → time ≤ event.occurredAt) ∧ Drafted rules time payloads rest := by
  obtain ⟨event, rest, rfl, payloadOk, restOk⟩ := List.map_eq_cons_iff.mp drafted.payloads
  refine ⟨event, rest, rfl, payloadOk, ?_, restOk, ?_⟩
  · exact fun monotone => drafted.times monotone event List.mem_cons_self
  · exact fun monotone other member =>
      drafted.times monotone other (List.mem_cons_of_mem _ member)

omit drafted in
theorem eq_nil (drafted : Drafted rules time [] events) : events = [] :=
  List.map_eq_nil_iff.mp drafted.payloads

omit drafted in
theorem eq_append (drafted : Drafted rules time (payloads ++ more) events) :
    ∃ first second, events = first ++ second ∧ Drafted rules time payloads first ∧
      Drafted rules time more second := by
  obtain ⟨first, second, rfl, firstOk, secondOk⟩ := List.map_eq_append_iff.mp drafted.payloads
  refine ⟨first, second, rfl, ⟨firstOk, ?_⟩, ⟨secondOk, ?_⟩⟩
  · exact fun monotone event member =>
      drafted.times monotone event (List.mem_append_left _ member)
  · exact fun monotone event member =>
      drafted.times monotone event (List.mem_append_right _ member)

/-- Numbering the drafts changes neither payloads nor times. -/
theorem resequence (version : Nat) : Drafted rules time payloads (resequence version events) := by
  obtain ⟨rfl, times⟩ := drafted
  induction events generalizing version with
  | nil => exact nil
  | cons event rest ih =>
    have restOk := ih (version + 1) fun monotone other member =>
      times monotone other (List.mem_cons_of_mem _ member)
    constructor
    · rw [Events.resequence, List.map_cons, restOk.payloads, List.map_cons]
    · intro monotone other member
      rcases List.mem_cons.mp member with rfl | member
      · exact times monotone event List.mem_cons_self
      · exact restOk.times monotone other member

/-- What holds of every payload holds of every event. -/
theorem forall_mem {law : Payload → Prop} (holds : ∀ payload ∈ payloads, law payload) :
    ∀ event ∈ events, law event.payload := by
  intro event member
  apply holds
  rw [← drafted.payloads]
  exact List.mem_map_of_mem member

theorem exists_mem (member : payload ∈ payloads) : ∃ event ∈ events, event.payload = payload := by
  rw [← drafted.payloads] at member
  simpa using member

end Drafted

/-! ## Legality along a batch -/

section Legality

variable {state : State} {first second events : List Event} {time : Time}

theorem acceptsAll_append : state.AcceptsAll (first ++ second) ↔
      state.AcceptsAll first ∧ (state.afterAll first).AcceptsAll second := by
  induction first generalizing state with
  | nil => exact ⟨fun accepted => ⟨trivial, accepted⟩, And.right⟩
  | cons event rest ih =>
    change state.Accepts event.payload ∧ (state.after event).AcceptsAll (rest ++ second) ↔
      (state.Accepts event.payload ∧ (state.after event).AcceptsAll rest) ∧
        ((state.after event).afterAll rest).AcceptsAll second
    rw [ih, and_assoc]

theorem legalBatch_append : LegalBatch rules state (first ++ second) ↔
      LegalBatch rules state first ∧
        (state.AcceptsAll first → LegalBatch rules (state.afterAll first) second) := by
  induction first generalizing state with
  | nil => exact ⟨fun legal => ⟨trivial, fun _ => legal⟩, fun legal => legal.2 trivial⟩
  | cons event rest ih =>
    constructor
    · rintro ⟨now, later⟩
      refine ⟨⟨now, fun accepted => (ih.mp (later accepted)).1⟩, ?_⟩
      rintro ⟨accepted, accepteds⟩
      exact (ih.mp (later accepted)).2 accepteds
    · rintro ⟨⟨now, later⟩, legal⟩
      exact ⟨now, fun accepted => ih.mpr ⟨later accepted, fun accepteds =>
        legal ⟨accepted, accepteds⟩⟩⟩

/-- A batch made of groups, one for each item of a list.  The invariant relates
the items dealt with so far to the state they lead to. -/
theorem legalBatch_flatMap {ι : Type} {payloads : ι → List Payload} {items : List ι}
    (invariant : List ι → State → Prop) (initial : invariant [] state)
    (group : ∀ before item after, items = before ++ item :: after →
      ∀ middle events, invariant before middle → Drafted rules time (payloads item) events →
        LegalBatch rules middle events ∧
          (middle.AcceptsAll events → invariant (before ++ [item]) (middle.afterAll events)))
    (drafted : Drafted rules time (items.flatMap payloads) events) : LegalBatch rules state events ∧
      (state.AcceptsAll events → invariant items (state.afterAll events)) := by
  suffices general : ∀ after before middle events, items = before ++ after →
      invariant before middle → Drafted rules time (after.flatMap payloads) events →
      LegalBatch rules middle events ∧
        (middle.AcceptsAll events → invariant items (middle.afterAll events)) from
    general items [] state events rfl initial drafted
  intro after
  induction after with
  | nil =>
    intro before middle events split holds drafted
    obtain rfl := drafted.eq_nil
    rw [List.append_nil] at split
    subst split
    exact ⟨trivial, fun _ => holds⟩
  | cons item rest ih =>
    intro before middle events split holds drafted
    rw [List.flatMap_cons] at drafted
    obtain ⟨mine, others, rfl, mineDrafted, othersDrafted⟩ := drafted.eq_append
    obtain ⟨mineLegal, mineHolds⟩ := group before item rest split middle mine holds mineDrafted
    have later (accepted : middle.AcceptsAll mine) :=
      ih (before ++ [item]) (middle.afterAll mine) others (by simp [split])
        (mineHolds accepted) othersDrafted
    refine ⟨legalBatch_append.mpr ⟨mineLegal, fun accepted => (later accepted).1⟩, ?_⟩
    intro accepted
    obtain ⟨mineAccepted, othersAccepted⟩ := acceptsAll_append.mp accepted
    rw [State.afterAll_append]
    exact (later mineAccepted).2 othersAccepted

/-- A batch with one event for each item of a list. -/
theorem legalBatch_map {ι : Type} {payload : ι → Payload} {items : List ι}
    (invariant : List ι → State → Prop) (initial : invariant [] state)
    (each : ∀ before item after, items = before ++ item :: after →
      ∀ middle event, invariant before middle → event.payload = payload item →
        Legal rules middle event.occurredAt event.payload ∧
          (middle.Accepts event.payload → invariant (before ++ [item]) (middle.after event)))
    (drafted : Drafted rules time (items.map payload) events) : LegalBatch rules state events ∧
      (state.AcceptsAll events → invariant items (state.afterAll events)) := by
  rw [List.map_eq_flatMap] at drafted
  refine legalBatch_flatMap invariant initial ?_ drafted
  intro before item after split middle events holds drafted
  obtain ⟨event, rest, rfl, payloadOk, _, restDrafted⟩ := drafted.eq_cons
  obtain rfl := restDrafted.eq_nil
  obtain ⟨legal, next⟩ := each before item after split middle event holds payloadOk
  exact ⟨⟨legal, fun _ => trivial⟩, fun accepted => next accepted.1⟩

end Legality

end AgentForge.Protocol
