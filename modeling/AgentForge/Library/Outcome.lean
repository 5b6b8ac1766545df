import Mathlib.Data.List.Basic

/-!
# Outcomes of fallible computations

Inversion of successful sequencing, and agreement of two computations: both
raise the same error, or both return related values.
-/

namespace AgentForge.Library

universe u v

variable {ε : Type u} {α β γ δ : Type v}

/-- A sequence succeeds exactly if its parts do. -/
theorem bind_eq_ok {first : Except ε α} {next : α → Except ε β} {result : β} :
    (first >>= next) = .ok result ↔ ∃ value, first = .ok value ∧ next value = .ok result := by
  cases first with
  | error failure => simp [bind, Except.bind]
  | ok value => simp [bind, Except.bind]

/-- What is seen of a result has been returned. -/
theorem exists_ok_of_map {outcome : Except ε α} {view : α → β} {value : β}
    (found : outcome.toOption.map view = some value) :
    ∃ result, outcome = .ok result ∧ view result = value := by
  cases outcome with
  | error failure => cases found
  | ok result => exact ⟨result, rfl, Option.some.inj found⟩

/-- The same error, or related values. -/
def Agree (related : α → β → Prop) : Except ε α → Except ε β → Prop
  | .ok value, .ok value' => related value value'
  | .error failure, .error failure' => failure = failure'
  | _, _ => False

namespace Agree

variable {related : α → β → Prop} {relatedNext : γ → δ → Prop} {first : Except ε α}
  {first' : Except ε β}

theorem bind {next : α → Except ε γ} {next' : β → Except ε δ} (agree : Agree related first first')
    (agreeNext : ∀ value value', related value value' →
      Agree relatedNext (next value) (next' value')) :
    Agree relatedNext (first >>= next) (first' >>= next') := by
  cases first with
  | error failure =>
    cases first' with
    | error failure' => exact agree
    | ok value' => exact agree.elim
  | ok value =>
    cases first' with
    | error failure' => exact agree.elim
    | ok value' => exact agreeNext value value' agree

/-- The relation may be changed for the values that are returned. -/
theorem imp_of_ok {related' : α → β → Prop} (agree : Agree related first first')
    (weaken : ∀ value value', first = .ok value → first' = .ok value' →
      related value value' → related' value value') : Agree related' first first' := by
  cases first with
  | error failure =>
    cases first' with
    | error failure' => exact agree
    | ok value' => exact agree.elim
  | ok value =>
    cases first' with
    | error failure' => exact agree.elim
    | ok value' => exact weaken value value' rfl rfl agree

/-- The second computation succeeds where the first does. -/
theorem ok_right {value : α} (agree : Agree related first first') (succeeded : first = .ok value) :
    ∃ value', first' = .ok value' ∧ related value value' := by
  subst succeeded
  cases first' with
  | error failure' => exact agree.elim
  | ok value' => exact ⟨value', rfl, agree⟩

/-- The first computation succeeds where the second does. -/
theorem ok_left {value' : β} (agree : Agree related first first')
    (succeeded : first' = .ok value') :
    ∃ value, first = .ok value ∧ related value value' := by
  subst succeeded
  cases first with
  | error failure => exact agree.elim
  | ok value => exact ⟨value, rfl, agree⟩

end Agree

end AgentForge.Library
