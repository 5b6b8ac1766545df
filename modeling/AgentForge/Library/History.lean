import Mathlib.Data.List.Basic

/-!
# Append-only histories

Laws that every entry of a history satisfies relative to the entries before it.
A history only grows at its end, so such a law is proved one entry at a time.
-/

namespace AgentForge.Library

universe u

variable {α : Type u} {law : List α → α → Prop} {property : α → Prop}
  {properties : List (α → Prop)} {history : List α}

theorem forall_mem_concat {last : α} (all : ∀ entry ∈ history, property entry)
    (holds : property last) : ∀ entry ∈ history ++ [last], property entry := by
  intro entry member
  rcases List.mem_append.mp member with old | new
  · exact all entry old
  · exact List.mem_singleton.mp new ▸ holds

/-- `law before entry` holds at every entry of the history, where `before` is
the history up to it. -/
def EachAt (law : List α → α → Prop) (history : List α) : Prop :=
  ∀ before entry after, history = before ++ entry :: after → law before entry

@[simp]
theorem eachAt_nil (law : List α → α → Prop) : EachAt law [] := by
  intro before entry after split
  simp at split

theorem eachAt_concat {last : α} :
    EachAt law (history ++ [last]) ↔ EachAt law history ∧ law history last := by
  constructor
  · intro each
    refine ⟨?_, each history last [] rfl⟩
    intro before entry after split
    exact each before entry (after ++ [last]) (by simp [split])
  · rintro ⟨each, final⟩ before entry after split
    rcases List.eq_nil_or_concat after with rfl | ⟨initial, final', rfl⟩
    · have parts := List.append_inj' split rfl
      cases parts.1
      cases parts.2
      exact final
    · have reassociated : history ++ [last] = (before ++ entry :: initial) ++ [final'] := by
        simpa using split
      exact each before entry initial (List.append_inj' reassociated rfl).1

/-- A law of a history is a law of each of its initial parts. -/
theorem EachAt.of_append {first second : List α} (each : EachAt law (first ++ second)) :
    EachAt law first := by
  intro before entry after split
  exact each before entry (after ++ second) (by simp [split])

theorem EachAt.imp {law law' : List α → α → Prop} (each : EachAt law history)
    (weaken : ∀ before entry, law before entry → law' before entry) : EachAt law' history :=
  fun before entry after split => weaken before entry (each before entry after split)

/-- Entries with these properties occur in this order. -/
def InOrder : List (α → Prop) → List α → Prop
  | [], _ => True
  | property :: rest, history =>
      ∃ before entry after, history = before ++ entry :: after ∧ property entry ∧
        InOrder rest after

theorem inOrder_singleton : InOrder [property] history ↔ ∃ entry ∈ history, property entry := by
  constructor
  · rintro ⟨before, entry, after, rfl, holds, _⟩
    exact ⟨entry, by simp, holds⟩
  · rintro ⟨entry, member, holds⟩
    obtain ⟨before, after, split⟩ := List.append_of_mem member
    exact ⟨before, entry, after, split, holds, trivial⟩

/-- What has occurred in order has still occurred later. -/
theorem InOrder.append (occurred : InOrder properties history) (more : List α) :
    InOrder properties (history ++ more) := by
  induction properties generalizing history with
  | nil => trivial
  | cons property rest ih =>
    obtain ⟨before, entry, after, rfl, holds, later⟩ := occurred
    exact ⟨before, entry, after ++ more, by simp, holds, ih later⟩

/-- A further entry that occurs in a later part. -/
theorem InOrder.concat {history more : List α} (occurred : InOrder properties history) {entry : α}
    (member : entry ∈ more) (holds : property entry) :
    InOrder (properties ++ [property]) (history ++ more) := by
  induction properties generalizing history with
  | nil => exact inOrder_singleton.mpr ⟨entry, by simp [member], holds⟩
  | cons first rest ih =>
    obtain ⟨before, found, after, rfl, foundHolds, later⟩ := occurred
    exact ⟨before, found, after ++ more, by simp, foundHolds, ih later⟩

end AgentForge.Library
